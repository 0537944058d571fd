import Hnw.Service.Download
import Hnw.Theory.Tiling
import Mathlib.Tactic.Ring

/-!
# How a download is split

Each explicit sub-task is one byte longer than the quotient, and the last one runs to the end of
the resource whatever was asked for. The split is exact under the condition that those two
habits leave the last piece something to fetch and nothing to fetch too much.
-/

namespace Hnw.Service

open Hnw.Http Hnw.Theory

/-- The tasks an outcome starts split the section of `range` exactly. -/
def SplitsSection (outcome : Outcome) (range : HttpRange) : Prop :=
  ∃ subs, outcome = .tasks subs ∧
    SplitsExactly range.total.toNat range.sectionStart.toNat range.sectionEnd.toNat
      (subs.map DownloadTask.piece)

/-- The sections of the tasks an outcome starts. -/
def Outcome.pieces : Outcome → List (Nat × Nat)
  | .tasks subs => subs.map DownloadTask.piece
  | _ => []

/-- A split section is split by the pieces of its outcome. -/
theorem SplitsSection.pieces {outcome : Outcome} {range : HttpRange}
    (splits : SplitsSection outcome range) :
    SplitsExactly range.total.toNat range.sectionStart.toNat range.sectionEnd.toNat
      outcome.pieces := by
  obtain ⟨subs, rfl, exact⟩ := splits
  exact exact

/-- A sum of words that does not fall below its first summand did not wrap. -/
theorem add_exact_of_le {left right : UInt64} (kept : left.toNat ≤ (left + right).toNat) :
    (left + right).toNat = left.toNat + right.toNat := by
  have first := left.toNat_lt
  have second := right.toNat_lt
  rw [UInt64.toNat_add] at kept ⊢
  omega

/-- A sum of words below a word did not wrap. -/
theorem add_exact_of_lt {left right : UInt64} (bound : UInt64)
    (below : left.toNat + right.toNat ≤ bound.toNat) :
    (left + right).toNat = left.toNat + right.toNat := by
  have limit := bound.toNat_lt
  rw [UInt64.toNat_add]
  exact Nat.mod_eq_of_lt (by omega)

/-- The last task runs to the end of the resource. -/
theorem lastTask_piece {task : DownloadTask} (start : UInt64)
    (positive : 0 < task.total.total.toNat) :
    (lastTask task start).piece = (start.toNat, task.total.total.toNat - 1) := by
  have one : (1 : UInt64) ≤ task.total.total := UInt64.le_iff_toNat_le.mpr positive
  simp only [DownloadTask.piece, lastTask, HttpRange.sectionStart, HttpRange.sectionEnd,
    Bool.false_eq_true, if_false, if_true, UInt64.toNat_sub_of_le _ _ one, UInt64.toNat_one]

/-- The pieces of the loop and the last task. -/
def pieces (task : DownloadTask) (size : UInt64) (count : Nat) (start : UInt64) :
    List (Nat × Nat) :=
  ((subTasks task size count start).1 ++
    [lastTask task (subTasks task size count start).2]).map DownloadTask.piece

/-- The first piece of the loop is `size + 1` bytes long. -/
theorem pieces_succ (task : DownloadTask) (size : UInt64) (count : Nat) (start : UInt64) :
    pieces task size (count + 1) start =
      (start.toNat, (start + size).toNat) :: pieces task size count (start + size + 1) := by
  simp [pieces, subTasks, DownloadTask.piece, HttpRange.sectionStart, HttpRange.sectionEnd]

/-- Pieces that leave the last one something tile the resource from the start on. -/
theorem pieces_tiles {task : DownloadTask} {size : UInt64} {count : Nat} {start : UInt64}
    (room : start.toNat + count * (size.toNat + 1) < task.total.total.toNat) :
    Tiles start.toNat (task.total.total.toNat - 1) (pieces task size count start) := by
  induction count generalizing start with
  | zero =>
    have positive : 0 < task.total.total.toNat := by omega
    simp only [pieces, subTasks, List.nil_append, List.map_cons, List.map_nil,
      lastTask_piece start positive]
    exact .single (by omega)
  | succ count ih =>
    rw [pieces_succ]
    have step : (count + 1) * (size.toNat + 1) = count * (size.toNat + 1) + (size.toNat + 1) :=
      Nat.succ_mul _ _
    have stop : (start + size).toNat = start.toNat + size.toNat :=
      add_exact_of_lt task.total.total (by omega)
    have next : (start + size + 1).toNat = start.toNat + size.toNat + 1 := by
      rw [add_exact_of_lt task.total.total (by rw [stop, UInt64.toNat_one]; omega),
        stop, UInt64.toNat_one]
    refine .cons (by omega) ?_
    rw [stop, ← next]
    exact ih (by omega)

/-- Pieces that are not empty and lie in the resource leave the last one something. -/
theorem room_of_pieces {task : DownloadTask} {size : UInt64} {count : Nat} {start : UInt64}
    (positive : 0 < task.total.total.toNat)
    (nonempty : ∀ piece ∈ pieces task size count start, piece.1 ≤ piece.2)
    (inside : ∀ piece ∈ pieces task size count start, piece.2 < task.total.total.toNat) :
    start.toNat + count * (size.toNat + 1) < task.total.total.toNat := by
  induction count generalizing start with
  | zero =>
    simp only [pieces, subTasks, List.nil_append, List.map_cons, List.map_nil,
      lastTask_piece start positive] at nonempty
    have last := nonempty _ (List.mem_singleton.mpr rfl)
    simp only at last
    omega
  | succ count ih =>
    rw [pieces_succ] at nonempty inside
    have first := nonempty _ List.mem_cons_self
    have fits := inside _ List.mem_cons_self
    simp only at first fits
    have stop := add_exact_of_le first
    have next : (start + size + 1).toNat = start.toNat + size.toNat + 1 := by
      rw [add_exact_of_lt task.total.total (by rw [UInt64.toNat_one]; omega), stop,
        UInt64.toNat_one]
    have later := ih (fun piece member => nonempty piece (List.mem_cons_of_mem _ member))
      (fun piece member => inside piece (List.mem_cons_of_mem _ member))
    have step : (count + 1) * (size.toNat + 1) = count * (size.toNat + 1) + (size.toNat + 1) :=
      Nat.succ_mul _ _
    rw [next] at later
    omega

/-- The last piece is among the pieces. -/
theorem last_mem_pieces {task : DownloadTask} (size : UInt64) (count : Nat) (start : UInt64)
    (positive : 0 < task.total.total.toNat) :
    ((subTasks task size count start).2.toNat, task.total.total.toNat - 1) ∈
      pieces task size count start := by
  simp [pieces, lastTask_piece _ positive]

/-- The tasks split the rest of the resource exactly when the rest is what was asked for and
the explicit pieces leave the last one something. -/
theorem pieces_splitsExactly_iff {task : DownloadTask} {size : UInt64} {count : Nat}
    {start : UInt64} {last : Nat} (inside : last < task.total.total.toNat) :
    SplitsExactly task.total.total.toNat start.toNat last (pieces task size count start) ↔
      last = task.total.total.toNat - 1 ∧
        start.toNat + count * (size.toNat + 1) < task.total.total.toNat := by
  have positive : 0 < task.total.total.toNat := by omega
  constructor
  · intro splits
    have member := last_mem_pieces size count start positive
    have ends := (splits.covers (task.total.total.toNat - 1)).mp
      ⟨_, member, splits.nonempty _ member, Nat.le_refl _⟩
    exact ⟨by omega, room_of_pieces positive splits.nonempty splits.inside⟩
  · rintro ⟨rfl, room⟩
    exact (pieces_tiles room).splitsExactly (by omega)

/-- The explicit pieces leave the last one something exactly when quotient and remainder
together make up for the connections. -/
theorem room_iff {bytes count : Nat} (positive : 0 < count) :
    (count - 1) * (bytes / count + 1) < bytes ↔
      count ≤ bytes / count + bytes % count := by
  obtain ⟨rest, rfl⟩ : ∃ rest, count = rest + 1 := ⟨count - 1, by omega⟩
  have whole := Nat.div_add_mod bytes (rest + 1)
  generalize bytes / (rest + 1) = quotient at *
  generalize bytes % (rest + 1) = remainder at *
  have expanded : rest * (quotient + 1) + quotient = (rest + 1) * quotient + rest := by ring
  rw [Nat.add_sub_cancel]
  omega

/-- A positive `int` divisor keeps its value as a `uint64_t`. -/
theorem connNum_toUInt64 {connNum : Int32} (positive : 0 < connNum.toInt) :
    connNum.toInt64.toUInt64.toNat = connNum.toInt.toNat := by
  have nonneg : (0 : Int64) ≤ connNum.toInt64 := by
    rw [Int64.le_iff_toInt_le, Int32.toInt_toInt64, Int64.toInt_zero]
    omega
  rw [Int64.toNat_toUInt64_of_le nonneg, Int64.toNatClampNeg, Int32.toInt_toInt64]

/-- Started tasks split a section exactly when their pieces do. -/
theorem splitsSection_tasks (task : DownloadTask) (size : UInt64) (count : Nat) :
    SplitsSection
        (.tasks ((subTasks task size count task.total.sectionStart).1 ++
          [lastTask task (subTasks task size count task.total.sectionStart).2])) task.total ↔
      SplitsExactly task.total.total.toNat task.total.sectionStart.toNat
        task.total.sectionEnd.toNat (pieces task size count task.total.sectionStart) := by
  constructor
  · rintro ⟨subs, same, splits⟩
    cases same
    exact splits
  · exact fun splits => ⟨_, rfl, splits⟩

/-- What the explicit pieces of a section that runs to the end of the resource leave. -/
theorem room_connNum_iff {task : DownloadTask}
    (ordered : task.total.sectionStart ≤ task.total.sectionEnd)
    (inside : task.total.sectionEnd < task.total.total)
    (whole : task.total.sectionEnd.toNat = task.total.total.toNat - 1) :
    task.total.sectionStart.toNat +
        (task.connNum.toInt - 1).toNat * ((sSize task).toNat + 1) < task.total.total.toNat ↔
      (0 < task.connNum.toInt →
        task.connNum.toInt.toNat ≤
          (task.total.sectionEnd.toNat - task.total.sectionStart.toNat + 1) /
              task.connNum.toInt.toNat +
            (task.total.sectionEnd.toNat - task.total.sectionStart.toNat + 1) %
              task.connNum.toInt.toNat) := by
  have first := UInt64.le_iff_toNat_le.mp ordered
  have below := UInt64.lt_iff_toNat_lt.mp inside
  by_cases positive : 0 < task.connNum.toInt
  · have quotient : (sSize task).toNat =
        (task.total.sectionEnd.toNat - task.total.sectionStart.toNat + 1) /
          task.connNum.toInt.toNat := by
      simp only [sSize, UInt64.toNat_div, HttpRange.sectionSize_exact ordered inside,
        connNum_toUInt64 positive]
    have count : (task.connNum.toInt - 1).toNat = task.connNum.toInt.toNat - 1 := by omega
    rw [quotient, count, ← room_iff (by omega)]
    simp only [positive, true_imp_iff]
    omega
  · have none : (task.connNum.toInt - 1).toNat = 0 := by omega
    simp only [none, Nat.zero_mul, positive, false_imp_iff, iff_true]
    omega

/-- The connection count as the program keeps it, the low 32 bits of the argument as an `int`,
is usable; the section runs to the end of the resource; and quotient and remainder of the
section's size make up for the connections. -/
def LastPieceLeft (conNum : UInt64) (range : HttpRange) : Prop :=
  let connNum := conNum.toUInt32.toInt32
  let bytes := range.sectionEnd.toNat - range.sectionStart.toNat + 1
  connNum ≠ 0 ∧ connNum ≠ Int32.minValue ∧ range.sectionEnd = range.total - 1 ∧
    (0 < connNum.toInt →
      connNum.toInt.toNat ≤ bytes / connNum.toInt.toNat + bytes % connNum.toInt.toNat)

instance decidableLastPieceLeft (conNum : UInt64) (range : HttpRange) :
    Decidable (LastPieceLeft conNum range) :=
  inferInstanceAs (Decidable (_ ∧ _ ∧ _ ∧ _))

/-- Exactly when the `206` branch splits a section over the connections of its task. -/
theorem partialBranch_splits_iff {task : DownloadTask} {size : UInt64} {range : HttpRange}
    (told : { task.total with total := size } = range)
    (ordered : range.sectionStart ≤ range.sectionEnd) (inside : range.sectionEnd < range.total)
    (large : partialBranch task size ≠ .error .badMessage) :
    SplitsSection (partialBranch task size) range ↔
      task.connNum ≠ 0 ∧ task.connNum ≠ Int32.minValue ∧ range.sectionEnd = range.total - 1 ∧
        (0 < task.connNum.toInt →
          task.connNum.toInt.toNat ≤
            (range.sectionEnd.toNat - range.sectionStart.toNat + 1) / task.connNum.toInt.toNat +
              (range.sectionEnd.toNat - range.sectionStart.toNat + 1) %
                task.connNum.toInt.toNat) := by
  have below := UInt64.lt_iff_toNat_lt.mp inside
  have nonzero : size ≠ 0 := by
    intro zero
    have total : range.total = 0 := by rw [← told, zero]
    rw [total, UInt64.toNat_zero] at below
    exact Nat.not_lt_zero _ below
  rw [partialBranch, if_neg nonzero] at large ⊢
  simp only [told] at large ⊢
  by_cases zero : task.connNum = 0
  · simp [SplitsSection, zero]
  rw [if_neg zero] at large ⊢
  by_cases small : sSize { task with total := range } = 0
  · rw [if_pos small] at large
    exact absurd rfl large
  rw [if_neg small]
  by_cases minimal : task.connNum = Int32.minValue
  · simp [SplitsSection, minimal]
  rw [if_neg minimal]
  have started : SplitsSection (.tasks _) range ↔ _ :=
    (splitsSection_tasks { task with total := range } (sSize { task with total := range })
      (task.connNum.toInt - 1).toNat).trans (pieces_splitsExactly_iff below)
  have one : (1 : UInt64) ≤ range.total := by
    rw [UInt64.le_iff_toNat_le, UInt64.toNat_one]
    omega
  have ends : range.sectionEnd.toNat = range.total.toNat - 1 ↔
      range.sectionEnd = range.total - 1 := by
    rw [← UInt64.toNat_inj, UInt64.toNat_sub_of_le _ _ one, UInt64.toNat_one]
  rw [started]
  simp only [ne_eq, zero, not_false_eq_true, minimal, true_and, ends]
  apply and_congr_right
  intro whole
  exact @room_connNum_iff { task with total := range } ordered inside (ends.mpr whole)

/-- The main task keeps the connection count in an `int`, and the range as it is. -/
theorem mainTask_fields {url output : Bytes} {conNum : UInt64} {range : HttpRange}
    {fileFlag : FileFlag} {task : DownloadTask}
    (made : mainTask url output conNum range fileFlag = .ok task) :
    task.connNum = conNum.toUInt32.toInt32 ∧ task.total = range := by
  rw [mainTask] at made
  split at made
  · cases made
  · cases made
    exact ⟨rfl, rfl⟩

/-- Exactly when a `206` answer splits the requested section: the tasks made of the arguments
of `download` fetch every byte of the section once, and nothing else. -/
theorem onStatus_splits_iff (url output : Bytes) (conNum : UInt64) (requested : HttpRange)
    (fileFlag : FileFlag) (task : DownloadTask) (status : HttpResourceStatus) (range : HttpRange)
    (made : mainTask url output conNum requested fileFlag = .ok task)
    (answer : status.status = httpStatusPartial)
    (told : range = { requested with total := status.size })
    (ordered : range.sectionStart ≤ range.sectionEnd) (inside : range.sectionEnd < range.total)
    (large : onStatus task status ≠ .error .badMessage) :
    SplitsSection (onStatus task status) range ↔ LastPieceLeft conNum range := by
  have branch : onStatus task status = partialBranch task status.size := by
    rw [onStatus, answer]
    rfl
  obtain ⟨connNum, total⟩ := mainTask_fields made
  have section_ : { task.total with total := status.size } = range := by rw [total, told]
  rw [branch] at large ⊢
  rw [LastPieceLeft, ← connNum]
  exact partialBranch_splits_iff section_ ordered inside large

/-- The task for the whole of a resource over some connections. -/
def wholeTask (connNum : Int32) : DownloadTask :=
  { url := ascii "http://h/f", output := ascii "f", fflag := flagCreateNew, connNum }

/-- Ten bytes over two connections are split exactly. -/
theorem onStatus_splits_ten_bytes :
    SplitsSection (onStatus (wholeTask 2) { status := ascii "206", size := 10 })
      { total := 10 } :=
  (onStatus_splits_iff (ascii "http://h/f") (ascii "f") 2 {} flagCreateNew (wholeTask 2)
    { status := ascii "206", size := 10 } { total := 10 } (by decide) (by decide) (by decide)
    (by decide) (by decide) (by decide)).mpr (by decide)

/-- Four bytes over three connections leave the last one the empty piece behind the end, and
the first four of ten bytes over one connection become all ten. -/
theorem onStatus_splits_badly :
    ¬ SplitsSection (onStatus (wholeTask 3) { status := ascii "206", size := 4 })
      { total := 4 } ∧
    ¬ SplitsSection
      (onStatus { wholeTask 1 with total := { useEndEndpoint := false, stop := 3 } }
        { status := ascii "206", size := 10 })
      { useEndEndpoint := false, stop := 3, total := 10 } := by
  constructor
  · intro splits
    have last := splits.pieces.nonempty (4, 3) (by decide)
    exact absurd last (by decide)
  · intro splits
    have outside := (splits.pieces.covers 9).mp ⟨(0, 9), by decide⟩
    exact absurd outside (by decide)

end Hnw.Service
