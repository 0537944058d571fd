import Hnw.Verif.Target

/-!
# A target that is read and printed again

What `url()` prints of a target is a path and a sorted map without separators in their texts, so
`url(m)` reads the same path and the same map from it. What is printed can be longer than what was
read: a key without a value gets a `=`. So `split` may get through a target and not through what is
printed of it.
-/

namespace Hnw.Http

open Hnw.Util Hnw.Theory

/-- A target after some passes, in each of which a fresh line takes it and prints it. -/
def resent : Nat → Bytes → Option Bytes
  | 0, m => some m
  | passes + 1, m => (RequestLine.setUrl {} m).bind fun line => resent passes line.url

/-- What `url(m)` took, printed and read again, is the same path and the same map, and is printed
the same, now and in every further pass. -/
def ReadsAgain (m : Bytes) : Prop :=
  ∀ first, RequestLine.setUrl {} m = some first →
    (∃ second, RequestLine.setUrl {} first.url = some second ∧ second.path = first.path ∧
      second.queryMap = first.queryMap ∧ second.url = first.url) ∧
    ∀ passes, resent passes first.url = some first.url

/-- The query of a target as `url(m)` takes it: what stands between the first two `?`. -/
def takenQuery (m : Bytes) : Bytes :=
  (cutFirst questionMark (cutFirst questionMark m).2).1

/-- `split` gets through a target with a query. -/
def ReadsTarget (m : Bytes) : Prop :=
  questionMark ∈ m ∧ BytesNear questionMark m ∧ ReadsQuery (takenQuery m)

/-- The size of a printed pair and its separator. -/
def printedSize (pair : Bytes × Bytes) : Nat := pair.1.length + pair.2.length + 2

/-- `split` gets through what is printed of these pairs: every key is short, and so are together
the pairs that are printed in front of the last one, which are those of all keys but the greatest,
each with its last value. -/
def PrintsNear (pairs : List (Bytes × Bytes)) : Prop :=
  (∀ pair ∈ pairs, pair.1.length + 1 < 2 ^ 31) ∧
    ((frontEntries (lastValues pairs)).map printedSize).sum < 2 ^ 31

instance (pairs : List (Bytes × Bytes)) : Decidable (PrintsNear pairs) :=
  inferInstanceAs (Decidable ((∀ pair ∈ pairs, pair.1.length + 1 < 2 ^ 31) ∧
    ((frontEntries (lastValues pairs)).map printedSize).sum < 2 ^ 31))

/-- A target that is read and printed as itself stays the same in all passes. -/
theorem resent_same {target : Bytes} {line : RequestLine}
    (read : RequestLine.setUrl {} target = some line) (same : line.url = target) (passes : Nat) :
    resent passes target = some target := by
  induction passes with
  | zero => rfl
  | succ passes ih => rw [resent, read, Option.bind_some, same, ih]

/-- `split` gets through a printed map where its keys are short, and so are together all pairs but
the last. -/
theorem readsQuery_printQuery {map : QueryMap} (clean : CleanMap map) (some_ : map ≠ []) :
    ReadsQuery (printQuery map) ↔
      (∀ pair ∈ map, pair.1.length + 1 < 2 ^ 31) ∧ (map.dropLast.map printedSize).sum < 2 ^ 31 := by
  have sizes : (map.map pairText).dropLast.map (fun piece => piece.length + 1) =
      map.dropLast.map printedSize := by
    rw [← List.map_dropLast, List.map_map]
    apply List.map_congr_left
    intro pair _
    simp only [Function.comp, pairText, printedSize, List.length_append, List.length_cons]
    omega
  have pieces : (∀ q ∈ map.map pairText, BytesNear equals q) ↔
      ∀ pair ∈ map, pair.1.length + 1 < 2 ^ 31 := by
    rw [List.forall_mem_map]
    refine forall₂_congr fun pair member => ?_
    obtain ⟨key, value⟩ := clean pair member
    exact bytesNear_pair key.2.2 value.2.2
  rw [ReadsQuery, clean.splitOn_printQuery some_, pieces, printQuery,
    bytesNear_intercalate fun piece member => (clean.pairText_free member).1, sizes, and_comm]

/-- `split` gets through what is stored of these pairs exactly where it gets through what is
printed of them. -/
theorem storePairs_near (pairs : List (Bytes × Bytes)) :
    ((∀ pair ∈ storePairs pairs, pair.1.length + 1 < 2 ^ 31) ∧
      ((storePairs pairs).dropLast.map printedSize).sum < 2 ^ 31) ↔ PrintsNear pairs := by
  obtain ⟨sorted, same⟩ := storePairs_spec pairs
  have keys : (∀ pair ∈ storePairs pairs, pair.1.length + 1 < 2 ^ 31) ↔
      ∀ pair ∈ pairs, pair.1.length + 1 < 2 ^ 31 := by
    have stored : ∀ key, key ∈ (storePairs pairs).map Prod.fst ↔ key ∈ pairs.map Prod.fst :=
      fun key => ((same.map Prod.fst).mem_iff).trans key_mem_lastValues
    constructor
    · intro short pair member
      obtain ⟨kept, inside, key⟩ := List.mem_map.mp
        ((stored pair.1).mpr (List.mem_map.mpr ⟨pair, member, rfl⟩))
      exact key ▸ short kept inside
    · intro short pair member
      obtain ⟨read, inside, key⟩ := List.mem_map.mp
        ((stored pair.1).mp (List.mem_map.mpr ⟨pair, member, rfl⟩))
      exact key ▸ short read inside
  have front := (frontEntries_perm same).map printedSize
  rw [keys, sorted.dropLast_eq, front.sum_nat, PrintsNear]

/-- Assigning what is stored of a query once more stores the same. -/
theorem storePairs_again (pairs : List (Bytes × Bytes)) :
    storePairs (storePairs pairs) = storePairs pairs := by
  have sorted : Sorted ([] ++ storePairs pairs) := (storePairs_spec pairs).1
  exact foldl_setSorted sorted

/-- What is printed of a target with a query is read again where its query is. -/
theorem setUrl_sentTarget {path rest : Bytes} (free : questionMark ∉ path)
    (short : path.length + 1 < 2 ^ 31) :
    RequestLine.setUrl {} (sentTarget path rest) =
      if PrintsNear (readPairs (cutFirst questionMark rest).1) then
        some { path, queryMap := storePairs (readPairs (cutFirst questionMark rest).1) }
      else none := by
  have clean := storePairs_clean (@not_mem_cutFirst _ _ questionMark rest)
  have stored := storePairs_ne_nil (cutFirst questionMark rest).1
  have noMark := clean.printQuery_free stored
  have near := (bytesNear_pair free noMark).mpr short
  have reads := (readsQuery_printQuery clean stored).trans (storePairs_near _)
  rw [sentTarget, setUrl_query rfl free, cutFirst_free noMark, clean.readPairs_printQuery stored,
    storePairs_again]
  simp only [near, reads, true_and]

/-- What is stored of a target with a query is printed as `sentTarget`. -/
theorem url_stored (path rest : Bytes) :
    RequestLine.url
        { path, queryMap := storePairs (readPairs (cutFirst questionMark rest).1) } =
      sentTarget path rest := url_query (storePairs_ne_nil _)

/-- A target is read up to its second `?`, where `split` gets through it. -/
theorem readsTarget_iff {path : Bytes} (free : questionMark ∉ path) (rest : Bytes) :
    ReadsTarget (path ++ questionMark :: rest) ↔
      BytesNear questionMark (path ++ questionMark :: rest) ∧
        ReadsQuery (cutFirst questionMark rest).1 := by
  rw [ReadsTarget, takenQuery, cutFirst_append free]
  exact and_iff_right (by simp)

/-- Where a target with a query is read again, `split` got through what is printed of it. -/
theorem ReadsAgain.printsNear {m : Bytes} (again : ReadsAgain m) (reads : ReadsTarget m) :
    PrintsNear (readPairs (takenQuery m)) := by
  obtain ⟨path, rest, rfl, free⟩ := List.eq_append_cons_of_mem reads.1
  have near := (readsTarget_iff free rest).mp reads
  have first := @setUrl_query {} rfl path free rest
  rw [if_pos near] at first
  obtain ⟨⟨second, found, _⟩, _⟩ := again _ first
  rw [url_stored, setUrl_sentTarget free near.1.front_short] at found
  rw [takenQuery, cutFirst_append free]
  by_contra far
  rw [if_neg far] at found
  cases found

/-- What `url(m)` took is read again exactly where `split` gets through what is printed of it. -/
theorem readsAgain_iff (m : Bytes) :
    ReadsAgain m ↔ (ReadsTarget m → PrintsNear (readPairs (takenQuery m))) := by
  refine ⟨ReadsAgain.printsNear, fun prints first found => ?_⟩
  by_cases query : questionMark ∈ m
  · obtain ⟨path, rest, rfl, free⟩ := List.eq_append_cons_of_mem query
    rw [readsTarget_iff free, takenQuery, cutFirst_append free] at prints
    rw [setUrl_query rfl free] at found
    split at found
    · next near =>
      cases found
      have read := @setUrl_sentTarget path rest free near.1.front_short
      rw [if_pos (prints near)] at read
      have printed := url_stored path rest
      rw [printed]
      exact ⟨⟨_, read, rfl, rfl, printed⟩, resent_same read printed⟩
    · cases found
  · rw [setUrl_path _ query] at found
    cases found
    have read := setUrl_path {} query
    rw [url_path rfl]
    exact ⟨⟨_, read, rfl, rfl, url_path rfl⟩, resent_same read (url_path rfl)⟩

/-- A query of one key, without a `=`, gets one when it is printed. -/
theorem longKey_notAgain {key : Bytes} (free : TargetText key) (long : 2 ^ 31 ≤ key.length + 1) :
    ¬ ReadsAgain (questionMark :: key) := by
  intro again
  have start : questionMark ∉ ([] : Bytes) := List.not_mem_nil
  have query : (cutFirst questionMark key).1 = key := by rw [cutFirst_free free.1]
  have one : key.splitOn ampersand = [key] := List.splitOn_eq_singleton free.2.1
  have reads : ReadsTarget ([] ++ questionMark :: key) := by
    rw [readsTarget_iff start, query]
    refine ⟨(bytesNear_pair start free.1).mpr (by decide), bytesNear_of_free free.2.1, ?_⟩
    simpa [one] using bytesNear_of_free free.2.2
  have prints := ReadsAgain.printsNear again reads
  have taken : takenQuery (questionMark :: key) = key := by
    rw [takenQuery]
    exact (congrArg (fun cut => (cutFirst questionMark cut.2).1)
      (cutFirst_append start key)).trans query
  rw [taken, readPairs, one] at prints
  have short := prints.1 (readPair key) (by simp)
  rw [readPair, cutFirst_free free.2.2] at short
  exact absurd short (Nat.not_lt.mpr long)

/-- A key of two gigabytes is read, and not read again. -/
theorem readsAgain_not_always : ¬ ∀ m : Bytes, ReadsAgain m := by
  intro always
  have mark : ∀ {byte : UInt8}, byte ≠ 97 → byte ∉ List.replicate (2 ^ 31 - 1) (97 : UInt8) :=
    fun other member => other (List.eq_of_mem_replicate member)
  have free : TargetText (List.replicate (2 ^ 31 - 1) 97) :=
    ⟨mark (by decide), mark (by decide), mark (by decide)⟩
  have size : 2 ^ 31 ≤ (List.replicate (2 ^ 31 - 1) (97 : UInt8)).length + 1 := by
    rw [List.length_replicate]
    decide
  exact longKey_notAgain free size (always _)

end Hnw.Http
