import Hnw.Http.Line
import Hnw.Theory.SortedMap
import Hnw.Verif.Split

/-!
# The target of a request

`url(m)` cuts a target at `?`, its query at `&` and every piece at `=`, keeps two pieces of each
cut, and stores the query in a map; `url()` prints path and map. So a second separator cuts
something off, and a key that comes again replaces the one before.
-/

namespace Hnw.Http

open Hnw.Util Hnw.Theory

/-- A text without the separators of a target. -/
def TargetText (text : Bytes) : Prop :=
  questionMark ∉ text ∧ ampersand ∉ text ∧ equals ∉ text

/-- Key and value as `url(m)` takes them from a piece: what stands in front of the first `=`, and
what stands between it and the next. -/
def readPair (q : Bytes) : Bytes × Bytes :=
  ((cutFirst equals q).1, (cutFirst equals (cutFirst equals q).2).1)

/-- The pairs that `url(m)` takes from a query. -/
def readPairs (query : Bytes) : List (Bytes × Bytes) := (query.splitOn ampersand).map readPair

/-- The pairs of a query: it is cut at every `&`, and each piece at its first `=`. -/
def queryPairs (query : Bytes) : List (Bytes × Bytes) :=
  (query.splitOn ampersand).map (cutFirst equals)

/-- The map that assignments fill. -/
def storePairs (pairs : List (Bytes × Bytes)) : QueryMap :=
  pairs.foldl (fun map pair => setSorted pair.1 pair.2 map) []

/-! ## Reading -/

/-- `map[key] = value` on a sorted list. -/
theorem QueryMap.set_eq (key value : Bytes) (map : QueryMap) :
    QueryMap.set key value map = setSorted key value map := by
  induction map with
  | nil => rfl
  | cons entry rest ih => rw [QueryMap.set, setSorted, ih]

/-- A piece of a query is stored, where its separators are near. -/
theorem readQuery_eq (line : RequestLine) (q : Bytes) :
    line.readQuery q =
      if BytesNear equals q then some (line.addQuery (readPair q).1 (readPair q).2) else none := by
  have cut : split q (ascii "=") = if BytesNear equals q then some (q.splitOn equals) else none :=
    split_byte q equals
  rw [RequestLine.readQuery, cut]
  split
  · by_cases inside : equals ∈ q
    · obtain ⟨key, rest, rfl, free⟩ := List.eq_append_cons_of_mem inside
      rw [List.splitOn_append_cons_self_of_not_mem free, head_splitOn equals rest, readPair,
        cutFirst_append free]
      rfl
    · rw [List.splitOn_eq_singleton inside, readPair, cutFirst_free inside]
      rfl
  · rfl

/-- The pieces of a query are stored one after the other, where all separators are near. -/
theorem readQueries_eq (line : RequestLine) (qs : List Bytes) :
    qs.foldlM RequestLine.readQuery line =
      if ∀ q ∈ qs, BytesNear equals q then
        some { line with queryMap :=
          (qs.map readPair).foldl (fun map pair => setSorted pair.1 pair.2 map) line.queryMap }
      else none := by
  induction qs generalizing line with
  | nil => rw [if_pos (by simp)]; rfl
  | cons q qs ih =>
    rw [List.foldlM_cons, readQuery_eq]
    by_cases near : BytesNear equals q
    · rw [if_pos near]
      show qs.foldlM RequestLine.readQuery (line.addQuery (readPair q).1 (readPair q).2) = _
      rw [ih]
      simp only [List.forall_mem_cons, near, true_and, RequestLine.addQuery, QueryMap.set_eq,
        List.map_cons, List.foldl_cons]
    · rw [if_neg near, if_neg fun all => near (all q (by simp))]
      rfl

/-- `split` gets through a query. -/
def ReadsQuery (query : Bytes) : Prop :=
  BytesNear ampersand query ∧ ∀ q ∈ query.splitOn ampersand, BytesNear equals q

instance (query : Bytes) : Decidable (ReadsQuery query) :=
  inferInstanceAs (Decidable (BytesNear ampersand query ∧
    ∀ q ∈ query.splitOn ampersand, BytesNear equals q))

/-- A target without a query is a path. -/
theorem setUrl_path (line : RequestLine) {m : Bytes} (free : questionMark ∉ m) :
    line.setUrl m = some { line with path := m } := by
  have cut : split m (ascii "?") = some [m] := split_byte_free free
  rw [RequestLine.setUrl, cut]
  rfl

/-- A target is read up to its second `?`, where all separators are near. -/
theorem setUrl_query {line : RequestLine} (new : line.queryMap = []) {path : Bytes}
    (free : questionMark ∉ path) (rest : Bytes) :
    line.setUrl (path ++ questionMark :: rest) =
      if BytesNear questionMark (path ++ questionMark :: rest) ∧
          ReadsQuery (cutFirst questionMark rest).1 then
        some { line with path, queryMap := storePairs (readPairs (cutFirst questionMark rest).1) }
      else none := by
  have cut : split (path ++ questionMark :: rest) (ascii "?") =
      if BytesNear questionMark (path ++ questionMark :: rest) then
        some (path :: (cutFirst questionMark rest).1 :: (rest.splitOn questionMark).tail)
      else none := by
    rw [← head_splitOn, ← List.splitOn_append_cons_self_of_not_mem free]
    exact split_byte _ questionMark
  have pieces : split (cutFirst questionMark rest).1 (ascii "&") =
      if BytesNear ampersand (cutFirst questionMark rest).1 then
        some ((cutFirst questionMark rest).1.splitOn ampersand)
      else none := split_byte _ ampersand
  rw [RequestLine.setUrl, cut]
  by_cases near : BytesNear questionMark (path ++ questionMark :: rest)
  · rw [if_pos near]
    show ((split (cutFirst questionMark rest).1 (ascii "&")).bind fun qV =>
      qV.foldlM RequestLine.readQuery { line with path }) = _
    rw [pieces]
    by_cases nearQuery : BytesNear ampersand (cutFirst questionMark rest).1
    · rw [if_pos nearQuery, Option.bind_some, readQueries_eq]
      simp only [ReadsQuery, near, nearQuery, true_and, readPairs, storePairs, new]
    · rw [if_neg nearQuery, if_neg fun all => nearQuery all.2.1]
      rfl
  · rw [if_neg near, if_neg fun all => near all.1]
    rfl

/-! ## Printing -/

/-- A printed pair without its separator. -/
def pairText (pair : Bytes × Bytes) : Bytes := pair.1 ++ equals :: pair.2

/-- The printed query of a map. -/
def printQuery (map : QueryMap) : Bytes := [ampersand].intercalate (map.map pairText)

/-- Without a query the path is printed. -/
theorem url_path {line : RequestLine} (none : line.queryMap = []) : line.url = line.path := by
  rw [RequestLine.url, none, List.flatMap_nil, List.append_nil]
  exact List.dropLast_concat

/-- With a query path and query are printed, and the last separator is cut off. -/
theorem url_query {line : RequestLine} (some_ : line.queryMap ≠ []) :
    line.url = line.path ++ questionMark :: printQuery line.queryMap := by
  have text : (line.queryMap.flatMap fun entry =>
      entry.1 ++ ascii "=" ++ entry.2 ++ ascii "&") =
        (line.queryMap.map pairText).flatMap (· ++ [ampersand]) := by
    rw [List.flatMap_map]
    congr 1
    funext entry
    simp only [pairText, List.append_assoc]
    rfl
  have last : (line.queryMap.map pairText).flatMap (· ++ [ampersand]) ≠ [] := by
    cases entries : line.queryMap with
    | nil => exact absurd entries some_
    | cons entry rest => simp
  rw [RequestLine.url, text, List.dropLast_append_of_ne_nil last, dropLast_terminated,
    List.append_assoc]
  rfl

/-- A map of which no text holds a separator. -/
def CleanMap (map : QueryMap) : Prop := ∀ pair ∈ map, TargetText pair.1 ∧ TargetText pair.2

/-- A printed pair of a clean map holds no separator of pairs or targets. -/
theorem CleanMap.pairText_free {map : QueryMap} (clean : CleanMap map) {piece : Bytes}
    (member : piece ∈ map.map pairText) : ampersand ∉ piece ∧ questionMark ∉ piece := by
  obtain ⟨pair, inside, rfl⟩ := List.mem_map.mp member
  obtain ⟨key, value⟩ := clean pair inside
  have marks : ampersand ≠ equals ∧ questionMark ≠ equals := by decide
  exact ⟨not_mem_around key.2.1 marks.1 value.2.1, not_mem_around key.1 marks.2 value.1⟩

/-- A printed query is cut into its pairs. -/
theorem CleanMap.splitOn_printQuery {map : QueryMap} (clean : CleanMap map) (some_ : map ≠ []) :
    (printQuery map).splitOn ampersand = map.map pairText :=
  List.splitOn_intercalate ampersand (fun _ member => (clean.pairText_free member).1)
    (by simpa using some_)

/-- A printed pair is read as itself, both ways. -/
theorem CleanMap.read_pairText {map : QueryMap} (clean : CleanMap map) {pair : Bytes × Bytes}
    (member : pair ∈ map) : cutFirst equals (pairText pair) = pair ∧
      readPair (pairText pair) = pair := by
  obtain ⟨key, value⟩ := clean pair member
  have cut : cutFirst equals (pairText pair) = pair := cutFirst_append key.2.2 pair.2
  refine ⟨cut, ?_⟩
  rw [readPair, cut, cutFirst_free value.2.2]

/-- The pairs of a printed query are those of the map. -/
theorem CleanMap.queryPairs_printQuery {map : QueryMap} (clean : CleanMap map) (some_ : map ≠ []) :
    queryPairs (printQuery map) = map := by
  rw [queryPairs, clean.splitOn_printQuery some_, List.map_map]
  calc map.map (cutFirst equals ∘ pairText) = map.map id :=
        List.map_congr_left fun _ member => (clean.read_pairText member).1
    _ = map := List.map_id map

/-- The pairs that are taken from a printed query are those of the map. -/
theorem CleanMap.readPairs_printQuery {map : QueryMap} (clean : CleanMap map) (some_ : map ≠ []) :
    readPairs (printQuery map) = map := by
  rw [readPairs, clean.splitOn_printQuery some_, List.map_map]
  calc map.map (readPair ∘ pairText) = map.map id :=
        List.map_congr_left fun _ member => (clean.read_pairText member).2
    _ = map := List.map_id map

/-- A printed query holds no separator of targets. -/
theorem CleanMap.printQuery_free {map : QueryMap} (clean : CleanMap map) (some_ : map ≠ []) :
    questionMark ∉ printQuery map := by
  intro member
  obtain ⟨piece, found, inside⟩ := exists_mem_splitOn (by decide : questionMark ≠ ampersand) member
  rw [clean.splitOn_printQuery some_] at found
  exact (clean.pairText_free found).2 inside

/-! ## What is stored -/

/-- The texts of a pair that is taken from a query hold no separator where the query holds none of
targets. -/
theorem mem_readPairs {query : Bytes} (free : questionMark ∉ query) {pair : Bytes × Bytes}
    (member : pair ∈ readPairs query) : TargetText pair.1 ∧ TargetText pair.2 := by
  obtain ⟨q, piece, rfl⟩ := List.mem_map.mp member
  have noAmpersand : ampersand ∉ q := free_of_mem_splitOn piece
  have noMark : questionMark ∉ q := fun inside => free (mem_of_mem_splitOn inside piece)
  have front : ∀ {byte : UInt8}, byte ∈ (readPair q).1 → byte ∈ q :=
    fun inside => mem_of_mem_cutFirst (.inl inside)
  have behind : ∀ {byte : UInt8}, byte ∈ (readPair q).2 → byte ∈ q :=
    fun inside => mem_of_mem_cutFirst (.inr (mem_of_mem_cutFirst (.inl inside)))
  exact ⟨⟨fun inside => noMark (front inside), fun inside => noAmpersand (front inside),
      not_mem_cutFirst⟩,
    fun inside => noMark (behind inside), fun inside => noAmpersand (behind inside),
      not_mem_cutFirst⟩

/-- What is stored of a query is sorted, and holds the last values of its pairs. -/
theorem storePairs_spec (pairs : List (Bytes × Bytes)) :
    Sorted (storePairs pairs) ∧ (storePairs pairs).Perm (lastValues pairs) :=
  ⟨Sorted.foldl .nil pairs, foldl_setSorted_perm pairs⟩

/-- What is stored of a query is clean. -/
theorem storePairs_clean {query : Bytes} (free : questionMark ∉ query) :
    CleanMap (storePairs (readPairs query)) := by
  intro pair member
  have kept := (storePairs_spec (readPairs query)).2.mem_iff.mp member
  exact mem_readPairs free (mem_of_mem_lastValues kept)

/-- Something is stored of every query. -/
theorem storePairs_ne_nil (query : Bytes) : storePairs (readPairs query) ≠ [] := by
  intro nothing
  have same := (storePairs_spec (readPairs query)).2
  rw [nothing, List.nil_perm] at same
  have first : readPairs query ≠ [] := by simp [readPairs]
  obtain ⟨pair, rest, pairs⟩ := List.exists_cons_of_ne_nil first
  have key : pair.1 ∈ (lastValues (readPairs query)).map Prod.fst :=
    key_mem_lastValues.mpr (by simp [pairs])
  rw [same] at key
  cases key

/-! ## A target on its way through the client -/

/-- The target that `raw_request` puts on the request line; `none` where `split` throws. -/
def rawTarget (method uri : Bytes) : Option Bytes :=
  (RequestLine.setUrl { method } uri).map RequestLine.url

/-- The target of a uri has its path and, up to order, its pairs. -/
def TargetSurvives (method path query : Bytes) : Prop :=
  ∃ target, rawTarget method (path ++ questionMark :: query) = some target ∧
    (cutFirst questionMark target).1 = path ∧
    (queryPairs (cutFirst questionMark target).2).Perm (queryPairs query)

/-- What is printed for a path and a query. -/
def sentTarget (path query : Bytes) : Bytes :=
  path ++ questionMark :: printQuery (storePairs (readPairs (cutFirst questionMark query).1))

/-- The target that is printed for a query that was read. -/
theorem rawTarget_eq {method path : Bytes} (free : questionMark ∉ path) (query : Bytes) :
    rawTarget method (path ++ questionMark :: query) =
      if BytesNear questionMark (path ++ questionMark :: query) ∧
          ReadsQuery (cutFirst questionMark query).1 then
        some (sentTarget path query)
      else none := by
  rw [rawTarget, setUrl_query rfl free]
  split
  · rw [Option.map_some, url_query (storePairs_ne_nil _), sentTarget]
  · rfl

/-- The pairs of a target that was printed are those that were stored. -/
theorem printedTarget_pairs {path : Bytes} (free : questionMark ∉ path) (query : Bytes) :
    (cutFirst questionMark (sentTarget path query)).1 = path ∧
      queryPairs (cutFirst questionMark (sentTarget path query)).2 =
        storePairs (readPairs (cutFirst questionMark query).1) := by
  have clean := storePairs_clean (@not_mem_cutFirst _ _ questionMark query)
  rw [sentTarget, cutFirst_append free]
  exact ⟨rfl, clean.queryPairs_printQuery (storePairs_ne_nil _)⟩

/-- Where no value holds a `=`, the pairs that are taken are the pairs of the query. -/
theorem readPairs_eq {query : Bytes} (plain : ∀ pair ∈ queryPairs query, equals ∉ pair.2) :
    readPairs query = queryPairs query := by
  apply List.map_congr_left
  intro q member
  have free := plain (cutFirst equals q) (List.mem_map.mpr ⟨q, member, rfl⟩)
  rw [readPair, cutFirst_free free]

/-- A byte of a query other than the separators stands in one of its pairs. -/
theorem mem_queryPairs {query : Bytes} {byte : UInt8} (notAmpersand : byte ≠ ampersand)
    (notEquals : byte ≠ equals) (member : byte ∈ query) :
    ∃ pair ∈ queryPairs query, byte ∈ pair.1 ∨ byte ∈ pair.2 := by
  obtain ⟨q, piece, inside⟩ := exists_mem_splitOn notAmpersand member
  refine ⟨cutFirst equals q, List.mem_map.mpr ⟨q, piece, rfl⟩, ?_⟩
  by_cases cut : equals ∈ q
  · obtain ⟨front, rest, rfl, free⟩ := List.eq_append_cons_of_mem cut
    rw [cutFirst_append free]
    simpa [notEquals] using inside
  · rw [cutFirst_free cut]
    exact .inl inside

/-- What a target keeps of a uri that survives. -/
theorem TargetSurvives.plain {method path query : Bytes} (free : questionMark ∉ path)
    (survives : TargetSurvives method path query) :
    BytesNear questionMark (path ++ questionMark :: query) ∧
      ReadsQuery (cutFirst questionMark query).1 ∧ questionMark ∉ query ∧
      (∀ pair ∈ queryPairs query, equals ∉ pair.2) ∧ ((queryPairs query).map Prod.fst).Nodup := by
  obtain ⟨target, sent, _, pairs⟩ := survives
  rw [rawTarget_eq free] at sent
  split at sent
  · next reads =>
    cases sent
    rw [(printedTarget_pairs free query).2] at pairs
    have clean := storePairs_clean (@not_mem_cutFirst _ _ questionMark query)
    have texts : ∀ pair ∈ queryPairs query, TargetText pair.1 ∧ TargetText pair.2 :=
      fun pair member => clean pair (pairs.mem_iff.mpr member)
    refine ⟨reads.1, reads.2, fun member => ?_, fun pair member => (texts pair member).2.2.2, ?_⟩
    · obtain ⟨pair, inside, here⟩ := mem_queryPairs (by decide) (by decide) member
      rcases here with key | value
      · exact (texts pair inside).1.1 key
      · exact (texts pair inside).2.1 value
    · have sorted := (storePairs_spec (readPairs (cutFirst questionMark query).1)).1
      exact (pairs.map Prod.fst).nodup_iff.mp sorted.nodup
  · cases sent

/-- A uri survives exactly where its query holds no further `?` and no value a `=`, no key comes
twice, and all separators are near enough for `split`. -/
theorem targetSurvives_iff (method : Bytes) {path : Bytes} (free : questionMark ∉ path)
    (query : Bytes) :
    TargetSurvives method path query ↔
      (questionMark ∉ query ∧ (∀ pair ∈ queryPairs query, equals ∉ pair.2) ∧
        ((queryPairs query).map Prod.fst).Nodup) ∧
      path.length + 1 < 2 ^ 31 ∧ ReadsQuery query := by
  constructor
  · intro survives
    obtain ⟨near, reads, noMark, plain, once⟩ := survives.plain free
    rw [cutFirst_free noMark] at reads
    exact ⟨⟨noMark, plain, once⟩, near.front_short, reads⟩
  · rintro ⟨⟨noMark, plain, once⟩, short, reads⟩
    have whole : (cutFirst questionMark query).1 = query := by rw [cutFirst_free noMark]
    have near := (bytesNear_pair free noMark).mpr short
    refine ⟨_, ?_, (printedTarget_pairs free query).1, ?_⟩
    · rw [rawTarget_eq free, if_pos ⟨near, by rw [whole]; exact reads⟩]
    · rw [(printedTarget_pairs free query).2, whole, readPairs_eq plain]
      have stored := (storePairs_spec (queryPairs query)).2
      rwa [lastValues_of_nodup once] at stored

/-- A uri with two keys survives. -/
theorem targetSurvives_two :
    TargetSurvives (ascii "GET") (ascii "/find") (ascii "b=2&a=1") :=
  (targetSurvives_iff _ (by decide) _).mpr (by decide)

/-- A value that ends in `=` is shortened. -/
theorem target_shortened :
    ¬ ∀ method path query : Bytes, (blank ∉ path ++ query ∧ cr ∉ path ++ query ∧
      lf ∉ path ++ query) → questionMark ∉ path → TargetSurvives method path query := by
  intro always
  have survives := always (ascii "GET") (ascii "/") (ascii "sig=YWI=") (by decide) (by decide)
  have plain := (survives.plain (by decide)).2.2.2.1
  exact absurd plain (by decide)

end Hnw.Http
