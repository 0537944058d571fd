import Mathlib.Data.List.Nodup
import Mathlib.Data.List.Perm.Subperm
import Hnw.Example.FilesDownloader
import Hnw.Theory.LastWrite
import Hnw.Verif.Reading

/-!
# What the files downloader reads, and when it ends

The text of the URLs is read as words: those that begin with `#` are directives, of which the last
one of its kind counts, and the others are the URLs. The program ends by itself only after every URL
was requested and answered and none was skipped.
-/

namespace Hnw.Example

open Hnw.Http Hnw.Util Hnw.Theory

/-! ## The text of the URLs -/

namespace Downloader

variable {σ : Type} [UnorderedMultimap σ]

/-- A word that is a URL. -/
def isUrl (word : Bytes) : Bool := word ≠ [] ∧ word.head? ≠ some hashMark

/-- What a word gives to a directive. -/
def paramOf (cmd word : Bytes) : Option Bytes :=
  if word.head? = some hashMark then
    (cutAt equals word.tail).bind fun (name, param) => if name = cmd then some param else none
  else none

/-- The number a word gives to a directive. -/
def numberOf (cmd word : Bytes) : Option Nat :=
  (paramOf cmd word).bind fun param => (Service.stoi param).map sizeT

/-- The switch a word gives to a directive. -/
def switchOf (cmd word : Bytes) : Option Bool := (paramOf cmd word).bind onOff

/-- The header a word gives. -/
def headerOf (word : Bytes) : Option Entry := (paramOf (ascii "head") word).bind (cutAt comma)

/-- What a directive leaves, field by field. -/
structure Directed (s next : Downloader σ) (cmd param : Bytes) : Prop where
  /-- No URL is added. -/
  urls : next.urls = s.urls
  /-- `out_dir`. -/
  outDir : next.outDir = if cmd = ascii "out_dir" then param else s.outDir
  /-- `request_delay`. -/
  requestDelay : next.requestDelay =
    if cmd = ascii "request_delay" then ((Service.stoi param).map sizeT).getD s.requestDelay
    else s.requestDelay
  /-- `request_timeout`. -/
  requestTimeout : next.requestTimeout =
    if cmd = ascii "request_timeout" then ((Service.stoi param).map sizeT).getD s.requestTimeout
    else s.requestTimeout
  /-- `log_output`. -/
  logOutput : next.logOutput =
    if cmd = ascii "log_output" then (onOff param).getD s.logOutput else s.logOutput
  /-- `overlay_file`. -/
  overlayFile : next.overlayFile =
    if cmd = ascii "overlay_file" then (onOff param).getD s.overlayFile else s.overlayFile
  /-- `head`. -/
  head : next.head =
    if cmd = ascii "head" then
      s.head.map fun head => Parser.addHeads head (cutAt comma param).toList
    else s.head

/-- A directive does what it says. -/
theorem directed (s : Downloader σ) (cmd param : Bytes) :
    Directed s ((s.directive cmd param).getD s) cmd param := by
  unfold directive
  by_cases outDir : cmd = ascii "out_dir"
  · subst outDir
    constructor <;> simp +decide
  by_cases delay : cmd = ascii "request_delay"
  · subst delay
    cases number : Service.stoi param <;> constructor <;> simp +decide [number]
  by_cases timeout : cmd = ascii "request_timeout"
  · subst timeout
    cases number : Service.stoi param <;> constructor <;> simp +decide [number]
  by_cases log : cmd = ascii "log_output"
  · subst log
    constructor <;> simp +decide
  by_cases overlay : cmd = ascii "overlay_file"
  · subst overlay
    constructor <;> simp +decide
  by_cases header : cmd = ascii "head"
  · subst header
    cases given : s.head <;> cases cut : cutAt comma param <;> constructor <;>
      simp +decide [given, cut, Parser.addHeads]
  · constructor <;> simp [outDir, delay, timeout, log, overlay, header]

/-- What a word leaves, field by field. -/
structure Worded (s next : Downloader σ) (word : Bytes) : Prop where
  /-- A URL is added. -/
  urls : next.urls = s.urls ++ [word].filter isUrl
  /-- `out_dir`. -/
  outDir : next.outDir = (paramOf (ascii "out_dir") word).getD s.outDir
  /-- `request_delay`. -/
  requestDelay : next.requestDelay =
    (numberOf (ascii "request_delay") word).getD s.requestDelay
  /-- `request_timeout`. -/
  requestTimeout : next.requestTimeout =
    (numberOf (ascii "request_timeout") word).getD s.requestTimeout
  /-- `log_output`. -/
  logOutput : next.logOutput = (switchOf (ascii "log_output") word).getD s.logOutput
  /-- `overlay_file`. -/
  overlayFile : next.overlayFile = (switchOf (ascii "overlay_file") word).getD s.overlayFile
  /-- `head`. -/
  head : next.head = s.head.map fun head => Parser.addHeads head (headerOf word).toList

/-- A word that is no directive. -/
theorem worded_plain (s : Downloader σ) {word : Bytes} (plain : ∀ cmd, paramOf cmd word = none)
    {urls : List Bytes} (added : urls = s.urls ++ [word].filter isUrl) :
    Worded s { s with urls } word where
  urls := added
  outDir := by rw [plain, Option.getD_none]
  requestDelay := by rw [numberOf, plain, Option.bind_none, Option.getD_none]
  requestTimeout := by rw [numberOf, plain, Option.bind_none, Option.getD_none]
  logOutput := by rw [switchOf, plain, Option.bind_none, Option.getD_none]
  overlayFile := by rw [switchOf, plain, Option.bind_none, Option.getD_none]
  head := by
    simp only [headerOf, plain, Option.bind_none, Option.toList_none, Parser.addHeads,
      List.foldl_nil, Option.map_id']

/-- `parse_urls_line` of a word. -/
theorem worded (s : Downloader σ) (word : Bytes) : Worded s (s.parseUrlsLine word).2 word := by
  cases word with
  | nil => exact worded_plain s (fun _ => rfl) (List.append_nil _).symm
  | cons first rest =>
    by_cases marked : first = hashMark
    · subst marked
      cases cut : cutAt equals rest with
      | none =>
        have plain : ∀ cmd, paramOf cmd (hashMark :: rest) = none := fun cmd => by
          simp [paramOf, cut]
        have left : (s.parseUrlsLine (hashMark :: rest)).2 = s := by simp [parseUrlsLine, cut]
        rw [left]
        exact worded_plain s plain (by simp [isUrl])
      | some parts =>
        obtain ⟨cmd, param⟩ := parts
        have given : ∀ name, paramOf name (hashMark :: rest) =
            if cmd = name then some param else none :=
          fun name => by simp [paramOf, cut]
        have left : (s.parseUrlsLine (hashMark :: rest)).2 = (s.directive cmd param).getD s := by
          simp only [parseUrlsLine, cut, if_true, Option.bind_some]
          cases s.directive cmd param with
          | none => rfl
          | some next => rfl
        have fields := directed s cmd param
        rw [left]
        constructor
        · rw [fields.urls]
          simp [isUrl]
        · rw [fields.outDir, given]
          split <;> rfl
        · rw [fields.requestDelay, numberOf, given]
          split <;> rfl
        · rw [fields.requestTimeout, numberOf, given]
          split <;> rfl
        · rw [fields.logOutput, switchOf, given]
          split <;> rfl
        · rw [fields.overlayFile, switchOf, given]
          split <;> rfl
        · rw [fields.head, headerOf, given]
          split
          · rfl
          · simp only [Option.bind_none, Option.toList_none, Parser.addHeads, List.foldl_nil,
              Option.map_id']
    · have plain : ∀ cmd, paramOf cmd (first :: rest) = none := fun cmd => by
        simp [paramOf, marked]
      have left : (s.parseUrlsLine (first :: rest)).2 =
          { s with urls := s.urls ++ [first :: rest] } := by simp [parseUrlsLine, marked]
      rw [left]
      exact worded_plain s plain (by simp [isUrl, marked])

/-- The words of a text, one after another. -/
theorem parseUrlsTxt_words (s : Downloader σ) (text : Bytes) :
    s.parseUrlsTxt (some text) =
      (text.splitOnP endsWord).foldl (fun s word => (s.parseUrlsLine word).2) s := by
  have from_ : ∀ temp, ((text.foldl parseUrlsChar (temp, s)).2.parseUrlsLine
      (text.foldl parseUrlsChar (temp, s)).1).2 =
      (text.splitOnPPrepend endsWord temp.reverse).foldl
        (fun s word => (s.parseUrlsLine word).2) s := by
    induction text generalizing s with
    | nil =>
      intro temp
      rw [List.splitOnPPrepend_nil, List.reverse_reverse]
      rfl
    | cons u text ih =>
      intro temp
      rw [List.foldl_cons, parseUrlsChar]
      cases ends : endsWord u with
      | true =>
        rw [if_pos rfl, ih, List.splitOnPPrepend_cons_pos ends, List.reverse_reverse,
          List.foldl_cons]
        rfl
      | false =>
        rw [if_neg Bool.false_ne_true, ih, List.splitOnPPrepend_cons_neg ends,
          List.reverse_append]
        rfl
  exact from_ []

/-- The URLs that words add. -/
theorem words_urls (s : Downloader σ) (words : List Bytes) :
    (words.foldl (fun s word => (s.parseUrlsLine word).2) s).urls =
      s.urls ++ words.filter isUrl := by
  induction words generalizing s with
  | nil => exact (List.append_nil _).symm
  | cons word words ih =>
    rw [List.foldl_cons, ih, (worded s word).urls, List.append_assoc, ← List.filter_append]
    rfl

/-- The headers that words add. -/
theorem words_head (s : Downloader σ) (words : List Bytes) :
    (words.foldl (fun s word => (s.parseUrlsLine word).2) s).head =
      s.head.map fun head => Parser.addHeads head (words.filterMap headerOf) := by
  induction words generalizing s with
  | nil => exact Option.map_id'.symm
  | cons word words ih =>
    rw [List.foldl_cons, ih, (worded s word).head, Option.map_map]
    apply congrArg (Option.map · s.head)
    funext head
    simp only [Function.comp_apply, Parser.addHeads, List.filterMap_cons]
    cases headerOf word with
    | none => rfl
    | some entry => rfl

/-- A text is read as its words, which blanks, CR and LF end: the words that begin with `#` are
directives, of each of which the last one with a parameter that can be read counts, all headers are
added to the head, and the other words are the URLs, in order. -/
theorem parseUrlsTxt_reads (s : Downloader σ) (text : Bytes) :
    let words := text.splitOnP endsWord
    let next := s.parseUrlsTxt (some text)
    next.urls = s.urls ++ words.filter isUrl ∧
      next.outDir = (lastWrite (paramOf (ascii "out_dir")) words).getD s.outDir ∧
      next.requestDelay =
        (lastWrite (numberOf (ascii "request_delay")) words).getD s.requestDelay ∧
      next.requestTimeout =
        (lastWrite (numberOf (ascii "request_timeout")) words).getD s.requestTimeout ∧
      next.logOutput = (lastWrite (switchOf (ascii "log_output")) words).getD s.logOutput ∧
      next.overlayFile =
        (lastWrite (switchOf (ascii "overlay_file")) words).getD s.overlayFile ∧
      next.head = s.head.map fun head => Parser.addHeads head (words.filterMap headerOf) := by
  simp only [parseUrlsTxt_words]
  refine ⟨words_urls s _, ?_, ?_, ?_, ?_, ?_, words_head s _⟩
  · exact foldl_lastWrite (fun s word => (worded s word).outDir) s _
  · exact foldl_lastWrite (fun s word => (worded s word).requestDelay) s _
  · exact foldl_lastWrite (fun s word => (worded s word).requestTimeout) s _
  · exact foldl_lastWrite (fun s word => (worded s word).logOutput) s _
  · exact foldl_lastWrite (fun s word => (worded s word).overlayFile) s _

end Downloader

/-! ## The run -/

/-- No request is answered twice. -/
def AnsweredOnce (d : Downloading) (label : DownloadLabel) : Prop :=
  ∀ index answer, label = .answered index answer → index ∉ d.called

/-- The accounts of a run: so many calls stored the counter, and so many URLs were skipped by the
loop. -/
structure Tallied {σ : Type} (settings : Downloader σ) (d : Downloading) (stored loop : Nat) :
    Prop where
  /-- Each request is answered once. -/
  once : d.called.Nodup
  /-- What is answered was requested. -/
  asked : ∀ index ∈ d.called, index ∈ d.requested
  /-- What was requested, the loop came past. -/
  behind : ∀ index ∈ d.requested, index < d.requestCount
  /-- The loop does not go too far. -/
  inside : d.requestCount ≤ settings.urls.length
  /-- The loop requests a URL or skips it. -/
  loops : d.requested.length + loop ≤ d.requestCount
  /-- What the loop skips is skipped. -/
  skips : loop ≤ d.skipped.length
  /-- A call is skipped, or is about to count, or counted. -/
  calls : stored + d.loaded.length + d.counting + d.skipped.length = d.called.length + loop
  /-- The counter does not run ahead. -/
  counter : d.responseCount ≤ stored
  /-- What was loaded of the counter does not run ahead. -/
  loads : ∀ value ∈ d.loaded, value ≤ stored
  /-- The flag is set for no other reason. -/
  exits : d.exitFlag = true → d.interrupted = false → settings.urls.length ≤ stored

namespace Tallied

variable {σ : Type} {settings : Downloader σ} {d : Downloading} {stored loop : Nat}

/-- The body of the loop over the URLs keeps the accounts. -/
theorem request (tallied : Tallied settings d stored loop)
    (more : d.requestCount < settings.urls.length) (url : Bytes) :
    ∃ loop, Tallied settings (d.request settings url) stored loop := by
  have behind : ∀ index ∈ d.requested, index < d.requestCount + 1 := fun index member =>
    Nat.lt_succ_of_lt (tallied.behind index member)
  have loops := tallied.loops
  have skips := tallied.skips
  have calls := tallied.calls
  unfold Downloading.request
  cases outputOf settings.outDir url with
  | none =>
    exact ⟨loop, { tallied with behind, inside := more, loops := Nat.le_succ_of_le loops }⟩
  | some output =>
    simp only
    split
    · refine ⟨loop + 1, { tallied with
        behind, inside := more, loops := ?_, skips := ?_, calls := ?_ }⟩
      · show d.requested.length + (loop + 1) ≤ d.requestCount + 1
        omega
      · show loop + 1 ≤ (d.skipped ++ [d.requestCount]).length
        rw [List.length_append, List.length_singleton]
        omega
      · show stored + d.loaded.length + d.counting + (d.skipped ++ [d.requestCount]).length =
          d.called.length + (loop + 1)
        rw [List.length_append, List.length_singleton]
        omega
    · refine ⟨loop, { tallied with asked := ?_, behind := ?_, inside := more, loops := ?_ }⟩
      · exact fun index member => List.mem_append_left _ (tallied.asked index member)
      · intro index member
        rcases List.mem_append.mp member with old | new
        · exact behind index old
        · rw [List.mem_singleton.mp new]
          exact Nat.lt_succ_self _
      · show (d.requested ++ [d.requestCount]).length + loop ≤ d.requestCount + 1
        rw [List.length_append, List.length_singleton]
        omega

/-- `on_response` keeps the accounts. -/
theorem onResponse (tallied : Tallied settings d stored loop) {index : Nat}
    (asked : index ∈ d.requested) (first : index ∉ d.called) (output : Bytes)
    (answer : DownloadAnswer) :
    Tallied settings (d.onResponse settings index output answer) stored loop := by
  have once : (d.called ++ [index]).Nodup := by
    refine List.nodup_append.mpr ⟨tallied.once, List.nodup_singleton _, ?_⟩
    rintro other member _ new rfl
    exact first (List.mem_singleton.mp new ▸ member)
  have asks : ∀ other ∈ d.called ++ [index], other ∈ d.requested := by
    intro other member
    rcases List.mem_append.mp member with old | new
    · exact tallied.asked other old
    · rw [List.mem_singleton.mp new]
      exact asked
  have calls := tallied.calls
  have one : (d.called ++ [index]).length = d.called.length + 1 := by
    rw [List.length_append, List.length_singleton]
  have counts : stored + d.loaded.length + (d.counting + 1) + d.skipped.length =
      (d.called ++ [index]).length + loop := by omega
  cases answer with
  | failed => exact { tallied with once, asked := asks, calls := counts }
  | refused => exact { tallied with once, asked := asks, calls := counts }
  | found saves =>
    simp only [Downloading.onResponse]
    split
    · have more := tallied.skips
      refine { tallied with once, asked := asks, skips := ?_, calls := ?_ }
      · show loop ≤ (d.skipped ++ [index]).length
        rw [List.length_append, List.length_singleton]
        omega
      · show stored + d.loaded.length + d.counting + (d.skipped ++ [index]).length =
          (d.called ++ [index]).length + loop
        rw [one, List.length_append, List.length_singleton]
        omega
    · exact { tallied with once, asked := asks, calls := counts }

/-- Whatever happens keeps the accounts. -/
theorem step (tallied : Tallied settings d stored loop) {label : DownloadLabel}
    (once : AnsweredOnce d label) (enabled : d.Enabled settings label) :
    ∃ stored loop, Tallied settings (d.after settings label) stored loop := by
  have calls := tallied.calls
  have counter := tallied.counter
  cases label with
  | requests =>
    have more : d.requestCount < settings.urls.length := enabled
    simp only [Downloading.after, List.getElem?_eq_getElem more]
    exact ⟨stored, tallied.request more _⟩
  | answered index answer =>
    simp only [Downloading.after]
    split
    · exact ⟨stored, loop, tallied⟩
    · exact ⟨stored, loop, tallied.onResponse enabled (once index answer rfl) _ answer⟩
  | loads =>
    have some_ : 0 < d.counting := enabled
    refine ⟨stored, loop, { tallied with calls := ?_, loads := ?_ }⟩
    · show stored + (d.loaded ++ [d.responseCount]).length + (d.counting - 1) + d.skipped.length =
        d.called.length + loop
      rw [List.length_append, List.length_singleton]
      omega
    · intro value member
      rcases List.mem_append.mp member with old | new
      · exact tallied.loads value old
      · rw [List.mem_singleton.mp new]
        exact counter
  | stores call =>
    have inside : call < d.loaded.length := enabled
    have known := tallied.loads _ (List.getElem_mem inside)
    simp only [Downloading.after, List.getElem?_eq_getElem inside]
    refine ⟨stored + 1, loop, { tallied with calls := ?_, counter := ?_, loads := ?_, exits := ?_ }⟩
    · show stored + 1 + (d.loaded.eraseIdx call).length + d.counting + d.skipped.length =
        d.called.length + loop
      rw [List.length_eraseIdx_of_lt inside]
      omega
    · exact Nat.succ_le_succ known
    · exact fun value member =>
        Nat.le_succ_of_le (tallied.loads value (List.mem_of_mem_eraseIdx member))
    · exact fun flag quiet => Nat.le_succ_of_le (tallied.exits flag quiet)
  | compares =>
    refine ⟨stored, loop, { tallied with exits := ?_ }⟩
    intro flag quiet
    rcases Bool.or_eq_true_iff.mp flag with before | now
    · exact tallied.exits before quiet
    · exact (of_decide_eq_true now).trans counter
  | fileChanged path exist => exact ⟨stored, loop, { tallied with }⟩
  | interrupted =>
    refine ⟨stored, loop, { tallied with exits := ?_ }⟩
    intro _ quiet
    cases quiet

end Tallied

/-- In every run in which no request is answered twice: where the exit flag is set and there was no
SIGINT, every URL was requested and answered and none was skipped. So a file that is there already
keeps the program from ending. -/
theorem downloader_exits {σ : Type} {settings : Downloader σ} {d : Downloading}
    (reached : (downloader settings).ReachableWith AnsweredOnce d) (exits : d.exitFlag = true)
    (quiet : d.interrupted = false) :
    d.skipped = [] ∧
      ∀ index < settings.urls.length, index ∈ d.requested ∧ index ∈ d.called := by
  have tallied : ∃ stored loop, Tallied settings d stored loop := by
    apply reached.invariant
    · intro first begins
      rw [show first = { there := first.there } from begins]
      exact ⟨0, 0, .nil, nofun, nofun, Nat.zero_le _, Nat.le_refl _, Nat.le_refl _, rfl,
        Nat.le_refl _, nofun, nofun⟩
    · rintro first label _ ⟨stored, loop, tallied⟩ once ⟨_, enabled, rfl⟩
      exact tallied.step once enabled
  obtain ⟨stored, loop, tallied⟩ := tallied
  have whole := tallied.exits exits quiet
  have loops := tallied.loops
  have inside := tallied.inside
  have skips := tallied.skips
  have calls := tallied.calls
  have fewer : d.called.length ≤ d.requested.length :=
    (tallied.once.subperm tallied.asked).length_le
  have nothing : d.skipped.length = 0 := by omega
  have covers : ∀ index < settings.urls.length, index ∈ d.called := by
    have within : d.called ⊆ List.range settings.urls.length := fun index member =>
      List.mem_range.mpr ((tallied.behind index (tallied.asked index member)).trans_le inside)
    have perm := (tallied.once.subperm within).perm_of_length_le (by
      rw [List.length_range]
      omega)
    exact fun index small => perm.mem_iff.mpr (List.mem_range.mpr small)
  exact ⟨List.length_eq_zero_iff.mp nothing, fun index small =>
    ⟨tallied.asked index (covers index small), covers index small⟩⟩

/-- Two URLs. -/
def twoUrls : Downloader ListMultimap where
  urls := [ascii "http://h/a", ascii "http://h/b"]
  outDir := ascii "out"

/-- A request that fails and a file that is saved end the program. -/
theorem downloader_exits_two :
    ∃ d, (downloader twoUrls).ReachableWith AnsweredOnce d ∧ d.exitFlag = true ∧
      d.skipped = [] ∧ ∀ index < 2, index ∈ d.requested ∧ index ∈ d.called := by
  have other : ∀ {d : Downloading} {label : DownloadLabel},
      (∀ index answer, label ≠ .answered index answer) → AnsweredOnce d label :=
    fun none index answer same => absurd same (none index answer)
  have once : ∀ {d : Downloading} {index : Nat} {answer : DownloadAnswer}, index ∉ d.called →
      AnsweredOnce d (.answered index answer) := by
    rintro d index answer new _ _ ⟨⟩
    exact new
  have begins : (downloader twoUrls).ReachableWith AnsweredOnce { there := fun _ => false } :=
    .start rfl
  have requested := begins.step .requests (other nofun) ⟨rfl, by decide, rfl⟩
  have failed := requested.step (.answered 0 .failed) (once (by decide)) ⟨rfl, by decide, rfl⟩
  have both := failed.step .requests (other nofun) ⟨rfl, by decide, rfl⟩
  have saved := both.step (.answered 1 (.found true)) (once (by decide)) ⟨rfl, by decide, rfl⟩
  have loaded := saved.step .loads (other nofun) ⟨rfl, by decide, rfl⟩
  have stored := loaded.step (.stores 0) (other nofun) ⟨rfl, by decide, rfl⟩
  have loadedAgain := stored.step .loads (other nofun) ⟨rfl, by decide, rfl⟩
  have storedAgain := loadedAgain.step (.stores 0) (other nofun) ⟨rfl, by decide, rfl⟩
  have reached := storedAgain.step .compares (other nofun) ⟨rfl, by decide, rfl⟩
  obtain ⟨none, all⟩ := downloader_exits reached rfl rfl
  exact ⟨_, reached, rfl, none, all⟩

end Hnw.Example
