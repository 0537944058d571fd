import Mathlib.Data.List.Induction
import Hnw.Session.Send
import Hnw.Verif.Merge

/-!
# What `pre_send` adds to a head

`pre_send` adds a length, to a response a content type, and then the headers of the session, each
only where the name is not there yet. All three are merges that overwrite nothing, so a name keeps
the values it has, and of the names that are added the first entry counts.
-/

namespace Hnw.Http

open Hnw.Util Hnw.Util.UnorderedMultimap

variable {σ : Type} [UnorderedMultimap σ] {head : σ} {entries : List Entry} {name : Bytes}

/-! ## Adding what is absent -/

/-- Where all names are there, nothing is added. -/
theorem foldl_mergeOne_same (present : ∀ entry ∈ entries, getHeadCount head entry.1 ≠ 0) :
    entries.foldl (mergeOne false) head = head := by
  induction entries with
  | nil => rfl
  | cons entry entries ih =>
    have here : ¬ Takes false head entry.1 := by
      rintro (covers | absent)
      · cases covers
      · exact present entry List.mem_cons_self absent
    rw [List.foldl_cons, mergeOne_leaves here]
    exact ih fun later member => present later (List.mem_cons_of_mem entry member)

/-- A name that is there keeps its values. -/
theorem foldl_mergeOne_kept (present : getHeadCount head name ≠ 0) :
    (storedValues (entries.foldl (mergeOne false) head) name).Perm (storedValues head name) := by
  apply foldl_mergeOne_stays
  rintro _ (covers | absent)
  · cases covers
  · exact present absent

/-- A name that is absent gets the value of its first entry. -/
theorem foldl_mergeOne_first (absent : getHeadCount head name = 0) :
    storedValues (entries.foldl (mergeOne false) head) name =
      ((entries.find? fun entry => entry.1 = name).map Prod.snd).toList := by
  induction entries generalizing head with
  | nil => exact storedValues_absent absent
  | cons entry entries ih =>
    rw [List.foldl_cons]
    by_cases same : entry.1 = name
    · have value : storedValues (mergeOne false head entry) name = [entry.2] := by
        rw [← same] at absent ⊢
        exact mergeOne_takes (.inr absent)
      have present : getHeadCount (mergeOne false head entry) name ≠ 0 := by
        rw [getHeadCount_values, value]
        exact Nat.one_ne_zero
      have kept := @foldl_mergeOne_kept σ _ _ entries name present
      rw [value] at kept
      rw [List.perm_singleton.mp kept, List.find?_cons_of_pos (by simpa using same)]
      rfl
    · have still : getHeadCount (mergeOne false head entry) name = 0 := by
        rw [getHeadCount_values] at absent ⊢
        rw [(mergeOne_other same).length_eq]
        exact absent
      rw [ih still, List.find?_cons_of_neg (by simpa using same)]

/-- An entry is the first of its name where every name occurs once. -/
theorem find?_entry (once : (entries.map Prod.fst).Nodup) {entry : Entry}
    (member : entry ∈ entries) :
    (entries.find? fun other => other.1 = entry.1) = some entry := by
  induction entries with
  | nil => cases member
  | cons first entries ih =>
    rw [List.map_cons, List.nodup_cons] at once
    by_cases same : first.1 = entry.1
    · have here : entry = first := by
        rcases List.mem_cons.mp member with here | later
        · exact here
        · exact absurd (same ▸ List.mem_map_of_mem later) once.1
      rw [List.find?_cons_of_pos (by simpa using same), here]
    · have later : entry ∈ entries :=
        (List.mem_cons.mp member).resolve_left fun here => same (here ▸ rfl)
      rw [List.find?_cons_of_neg (by simpa using same), ih once.2 later]

/-! ## The session's head -/

/-- The session's head after a history of `add_session_head` calls. -/
def sessionHeadOf (updates : List Entry) : σ :=
  updates.foldl (fun head update => Session.addSessionHead head update.1 update.2) empty

/-- What the history leaves to a name: the value of the last call. -/
def lastValue (updates : List Entry) (name : Bytes) : Option Bytes :=
  (updates.reverse.find? fun update => update.1 = name).map Prod.snd

/-- One call replaces the values of its name and leaves those of every other. -/
theorem addSessionHead_values (head : σ) (update : Entry) (name : Bytes) :
    (storedValues (Session.addSessionHead head update.1 update.2) name).Perm
      (if update.1 = name then [update.2] else storedValues head name) := by
  by_cases same : update.1 = name
  · rw [if_pos same, ← same]
    exact .of_eq (storedValues_replace head update.1 update.2)
  · have erased := storedValues_apply (.refl (storedValues head name)) (.delHead update.1)
    have added := storedValues_apply erased (.addHead update.1 update.2)
    rw [if_neg same]
    simp only [HeadOp.values, if_neg same] at added
    exact added

/-- The session's head holds one value for each name of the history, the last one. -/
theorem sessionHeadOf_values (updates : List Entry) (name : Bytes) :
    storedValues (sessionHeadOf updates : σ) name = (lastValue updates name).toList := by
  induction updates using List.reverseRecOn with
  | nil =>
    show storedValues (empty : σ) name = []
    rw [storedValues, toList_empty]
    rfl
  | append_singleton updates update ih =>
    have step := addSessionHead_values (sessionHeadOf updates : σ) update name
    have snoc : (sessionHeadOf (updates ++ [update]) : σ) =
        Session.addSessionHead (sessionHeadOf updates) update.1 update.2 := by
      rw [sessionHeadOf, List.foldl_concat]
      rfl
    rw [snoc, lastValue, List.reverse_concat]
    by_cases same : update.1 = name
    · rw [if_pos same] at step
      rw [List.perm_singleton.mp step, List.find?_cons_of_pos (by simpa using same)]
      rfl
    · rw [if_neg same, ih] at step
      rw [List.find?_cons_of_neg (by simpa using same)]
      show _ = (lastValue updates name).toList
      cases value : lastValue updates name with
      | none =>
        rw [value] at step
        exact List.perm_nil.mp step
      | some last =>
        rw [value] at step
        exact List.perm_singleton.mp step

/-- The first entry of a name in the session's head is the one the history left. -/
theorem find?_sessionHeadOf (updates : List Entry) (name : Bytes) :
    ((toList (sessionHeadOf updates : σ)).find? fun entry => entry.1 = name).map Prod.snd =
      lastValue updates name := by
  have values := congrArg List.head? (sessionHeadOf_values (σ := σ) updates name)
  rw [storedValues, List.head?_map, List.head?_filter] at values
  rw [values]
  cases lastValue updates name <;> rfl

/-! ## `pre_send` -/

/-- What `pre_send` makes of a head: the names it has stay as they are, of those it lacks it gets
the defaults, and then what the history of the session's head left. -/
structure PreparesHead (defaults updates : List Entry) (head ready : σ) : Prop where
  /-- A name the application set keeps exactly its values. -/
  kept : ∀ name, getHeadCount head name ≠ 0 →
    (storedValues ready name).Perm (storedValues head name)
  /-- A default's name that was absent gets its value, once. -/
  default : ∀ entry ∈ defaults, getHeadCount head entry.1 = 0 →
    storedValues ready entry.1 = [entry.2]
  /-- A name still absent gets the value of the session, once, or stays absent. -/
  session : ∀ name, getHeadCount head name = 0 → name ∉ defaults.map Prod.fst →
    storedValues ready name = (lastValue updates name).toList

/-- The defaults and the entries of the session, each where its name is absent. -/
def prepared (defaults updates : List Entry) (head : σ) : σ :=
  merge (defaults.foldl (mergeOne false) head) (sessionHeadOf updates) false

/-- Preparing a head is one merge of the defaults and the session's entries. -/
theorem prepared_eq (defaults updates : List Entry) (head : σ) :
    prepared defaults updates head =
      (defaults ++ toList (sessionHeadOf updates : σ)).foldl (mergeOne false) head := by
  rw [List.foldl_append]
  rfl

/-- Preparing keeps the application's names and adds the absent ones. -/
theorem prepared_preparesHead {defaults : List Entry} (once : (defaults.map Prod.fst).Nodup)
    (updates : List Entry) (head : σ) :
    PreparesHead defaults updates head (prepared defaults updates head) := by
  refine ⟨fun name present => ?_, fun entry member absent => ?_, fun name absent other => ?_⟩
  · rw [prepared_eq]
    exact foldl_mergeOne_kept present
  · have first := find?_entry once member
    rw [prepared_eq, foldl_mergeOne_first absent, List.find?_append, first]
    rfl
  · have none_ : (defaults.find? fun entry => entry.1 = name) = none := by
      rw [List.find?_eq_none]
      intro entry member same
      exact other (of_decide_eq_true same ▸ List.mem_map_of_mem member)
    rw [prepared_eq, foldl_mergeOne_first absent, List.find?_append, none_, Option.none_or,
      find?_sessionHeadOf]

/-- All names of the merged entries are there after it. -/
theorem prepared_present {defaults updates : List Entry} (head : σ) {entry : Entry}
    (member : entry ∈ defaults ++ toList (sessionHeadOf updates : σ)) :
    getHeadCount (prepared defaults updates head) entry.1 ≠ 0 := by
  rw [prepared_eq, getHeadCount_values]
  by_cases absent : getHeadCount head entry.1 = 0
  · rw [foldl_mergeOne_first absent]
    cases found : (defaults ++ toList (sessionHeadOf updates : σ)).find?
        fun other => other.1 = entry.1 with
    | none => exact absurd (decide_eq_true rfl) (List.find?_eq_none.mp found entry member)
    | some first => exact Nat.one_ne_zero
  · rw [(foldl_mergeOne_kept absent).length_eq, ← getHeadCount_values]
    exact absent

/-- Preparing a head again changes nothing. -/
theorem prepared_again (defaults updates : List Entry) (head : σ) :
    prepared defaults updates (prepared defaults updates head) =
      prepared defaults updates head := by
  rw [prepared_eq defaults updates (prepared defaults updates head)]
  exact foldl_mergeOne_same fun _ member => prepared_present head member

/-- A request's head is prepared with the length of its body. -/
theorem preSendRequest_eq_prepared (updates : List Entry) (line : RequestLine) (head : σ)
    (body : Body) :
    Session.preSendRequest (sessionHeadOf updates) ⟨line, head, some body⟩ =
      some ⟨line, prepared [(httpLen, decimal body.bodySize)] updates head, some body⟩ := by
  by_cases absent : getHeadCount head httpLen = 0
  · simp [Session.preSendRequest, Session.addLength, prepared, mergeOne, absent, addHeadUint64]
  · simp [Session.preSendRequest, Session.addLength, prepared, mergeOne, absent]

/-- A response's head is prepared with the length of its body and the type of a page. -/
theorem preSendResponse_eq_prepared (updates : List Entry) (line : ResponseLine) (head : σ)
    (body : Body) :
    let ready := prepared [(httpLen, decimal body.bodySize), (httpCt, htmlMime)] updates head
    Session.preSendResponse (sessionHeadOf updates) ⟨line, head, some body⟩ =
      some ((⟨line, ready, some body⟩ : Response σ),
        decide (getHead ready httpConn httpConnClose = httpConnClose)) := by
  by_cases absent : getHeadCount head httpLen = 0
  · simp [Session.preSendResponse, Session.addLength, prepared, mergeOne, absent, addHeadUint64]
  · simp [Session.preSendResponse, Session.addLength, prepared, mergeOne, absent]

/-- `pre_send` keeps the application's headers and adds each absent one once. A request gets a
length, a response also a content type; both then get what the session's head has. Done again it
changes nothing. -/
theorem pre_send_keeps (updates : List Entry) (head : σ) (body : Body) :
    (∀ line : RequestLine, ∃ ready : σ,
      Session.preSendRequest (sessionHeadOf updates) ⟨line, head, some body⟩ =
        some ⟨line, ready, some body⟩ ∧
      PreparesHead [(httpLen, decimal body.bodySize)] updates head ready ∧
      Session.preSendRequest (sessionHeadOf updates) ⟨line, ready, some body⟩ =
        some ⟨line, ready, some body⟩) ∧
    (∀ line : ResponseLine, ∃ (ready : σ) (close : Bool),
      Session.preSendResponse (sessionHeadOf updates) ⟨line, head, some body⟩ =
        some (⟨line, ready, some body⟩, close) ∧
      PreparesHead [(httpLen, decimal body.bodySize), (httpCt, htmlMime)] updates head ready ∧
      Session.preSendResponse (sessionHeadOf updates) ⟨line, ready, some body⟩ =
        some (⟨line, ready, some body⟩, close)) := by
  constructor
  · intro line
    have once : ([(httpLen, decimal body.bodySize)].map Prod.fst).Nodup :=
      (by decide : [httpLen].Nodup)
    refine ⟨_, preSendRequest_eq_prepared updates line head body,
      prepared_preparesHead once updates head, ?_⟩
    rw [preSendRequest_eq_prepared, prepared_again]
  · intro line
    have once : ([(httpLen, decimal body.bodySize), (httpCt, htmlMime)].map Prod.fst).Nodup :=
      (by decide : [httpLen, httpCt].Nodup)
    refine ⟨_, _, preSendResponse_eq_prepared updates line head body,
      prepared_preparesHead once updates head, ?_⟩
    rw [preSendResponse_eq_prepared, prepared_again]

end Hnw.Http
