import Majutsu.Repo.RollingHash

/-!
# Where chunks begin and end

Both ways of cutting tile a byte string, and the lengths of the chunks stay between
their limits. A cut of `content_defined_ranges` is found with a hash that is carried
from one chunk to the next, so it is the hash of all bytes before it. What follows
a boundary is cut with what lies before the boundary, and two boundaries cut every
tail alike only if the hashes behind them are the same.
-/

namespace Majutsu.Repo

open Ranges

/-- A range with its limits. -/
def Within (shortest longest : Nat) (range : Nat × Nat) : Prop :=
  shortest ≤ range.2 - range.1 ∧ range.2 - range.1 ≤ longest

theorem dropLast_cons_of_ne_nil {α : Type} {x : α} {xs : List α} (more : xs ≠ []) :
    (x :: xs).dropLast = x :: xs.dropLast := by
  cases xs with
  | nil => exact absurd rfl more
  | cons y ys => rfl

theorem fixedRangesFrom_lengths {size : Nat} (positive : 0 < size) (len fuel start : Nat) :
    (∀ range ∈ fixedRangesFrom len size fuel start, range.1 < range.2) ∧
      ∀ range ∈ (fixedRangesFrom len size fuel start).dropLast, range.2 - range.1 = size := by
  induction fuel generalizing start with
  | zero => exact ⟨nofun, nofun⟩
  | succ fuel ih =>
    rw [fixedRangesFrom]
    by_cases more : start < len
    · rw [if_pos more]
      dsimp only
      obtain ⟨nonempty, full⟩ := ih (min (start + size) len)
      constructor
      · rintro range (_ | ⟨_, later⟩)
        · simp only
          omega
        · exact nonempty range later
      · by_cases last : fixedRangesFrom len size fuel (min (start + size) len) = []
        · rw [last]
          exact nofun
        · rw [dropLast_cons_of_ne_nil last]
          rintro range (_ | ⟨_, later⟩)
          · -- a next range begins before the end
            have inside : min (start + size) len < len := by
              by_contra done
              apply last
              cases fuel with
              | zero => rfl
              | succ fuel => rw [fixedRangesFrom, if_neg done]
            simp only
            omega
          · exact full range later
    · rw [if_neg more]
      exact ⟨nofun, nofun⟩

theorem cut_bounds {shortest longest length : Nat} (mask rolling : UInt64) (bytes : Bytes)
    (order : shortest ≤ longest) (room : length ≤ longest) :
    (cut shortest longest mask rolling length bytes).1 ≤ longest ∧
      ((cut shortest longest mask rolling length bytes).1 < length + bytes.length →
        shortest ≤ (cut shortest longest mask rolling length bytes).1) := by
  fun_induction cut shortest longest mask rolling length bytes with
  | case1 => simpa using room
  | case2 rolling length byte rest more rolled here => exact ⟨more, fun _ => here.1⟩
  | case3 rolling length byte rest more rolled here ih =>
    obtain ⟨upper, lower⟩ := ih more
    refine ⟨upper, fun less => lower ?_⟩
    simp only [List.length_cons] at less
    omega
  | case4 rolling length byte rest more => exact ⟨room, fun _ => by simp only; omega⟩

theorem contentDefinedRangesFrom_lengths {shortest longest : Nat} (order : shortest ≤ longest)
    (positive : 0 < longest) (mask rolling : UInt64) (fuel start : Nat) (rest : Bytes) :
    (∀ range ∈ contentDefinedRangesFrom shortest longest mask fuel start rolling rest,
      range.1 < range.2 ∧ range.2 - range.1 ≤ longest) ∧
    ∀ range ∈ (contentDefinedRangesFrom shortest longest mask fuel start rolling rest).dropLast,
      Within shortest longest range := by
  induction fuel generalizing start rolling rest with
  | zero => exact ⟨List.forall_mem_nil _, List.forall_mem_nil _⟩
  | succ fuel ih =>
    cases rest with
    | nil => exact ⟨List.forall_mem_nil _, List.forall_mem_nil _⟩
    | cons byte tail =>
      have progress := cut_pos shortest positive mask rolling byte tail
      obtain ⟨upper, lower⟩ :=
        cut_bounds mask rolling (byte :: tail) order (Nat.zero_le longest)
      rw [contentDefinedRangesFrom]
      generalize cut shortest longest mask rolling 0 (byte :: tail) = next at progress upper lower
      obtain ⟨each, inner⟩ := ih next.2 (start + next.1) ((byte :: tail).drop next.1)
      constructor
      · rintro range (_ | ⟨_, later⟩)
        · simp only
          omega
        · exact each range later
      · by_cases last : contentDefinedRangesFrom shortest longest mask fuel (start + next.1) next.2
            ((byte :: tail).drop next.1) = []
        · rw [last]
          exact List.forall_mem_nil _
        · rw [dropLast_cons_of_ne_nil last]
          rintro range (_ | ⟨_, later⟩)
          · -- a next range means that bytes are left
            have inside : next.1 < (byte :: tail).length := by
              by_contra all
              apply last
              rw [List.drop_eq_nil_of_le (Nat.le_of_not_lt all)]
              cases fuel <;> rfl
            have enough := lower (by omega)
            simp only [Within]
            omega
          · exact inner range later

theorem contentDefined_limits (target : Nat) :
    min (max (max target 1024 / 4) 1024) (max target 1024) ≤
        max (max target 1024 * 4) (min (max (max target 1024 / 4) 1024) (max target 1024) + 1) ∧
      max (max target 1024 * 4) (min (max (max target 1024 / 4) 1024) (max target 1024) + 1) =
        4 * max target 1024 := by
  omega

theorem contentDefinedRanges_lengths (bytes : Bytes) (target : Nat) :
    (∀ range ∈ contentDefinedRanges bytes target,
      range.1 < range.2 ∧ range.2 - range.1 ≤ 4 * max target 1024) ∧
    ∀ range ∈ (contentDefinedRanges bytes target).dropLast,
      Within (min (max (max target 1024 / 4) 1024) (max target 1024)) (4 * max target 1024)
        range := by
  obtain ⟨order, four⟩ := contentDefined_limits target
  have lengths := contentDefinedRangesFrom_lengths order (longest_pos target)
    (max ((max target 1024).nextPowerOfTwo - 1) 1).toUInt64 0 bytes.length 0 bytes
  refine ⟨fun range inside => ?_, fun range inside => ?_⟩
  · have bounds := lengths.1 range inside
    rwa [four] at bounds
  · have bounds := lengths.2 range inside
    rwa [four] at bounds

/-- Either way of cutting tiles the byte string, with chunks of the lengths it promises. -/
theorem chunkRangesForBytes_tile (chunking : String) (chunkSize : Nat) (bytes : Bytes) :
    Covers 0 (chunkRangesForBytes chunking chunkSize bytes) bytes.length ∧
    (∀ range ∈ chunkRangesForBytes chunking chunkSize bytes, range.1 < range.2) ∧
    (bytes = [] → chunkRangesForBytes chunking chunkSize bytes = []) ∧
    (chunking = "fixed" →
      ∀ range ∈ (chunkRangesForBytes chunking chunkSize bytes).dropLast,
        range.2 - range.1 = max chunkSize 1) ∧
    (chunking = "fastcdc" →
      (∀ range ∈ (chunkRangesForBytes chunking chunkSize bytes).dropLast,
        Within (min (max chunkSize 1024) (max (max chunkSize 1024 / 4) 1024))
          (4 * max chunkSize 1024) range) ∧
      ∀ range ∈ chunkRangesForBytes chunking chunkSize bytes,
        range.2 - range.1 ≤ 4 * max chunkSize 1024) := by
  have cdc := contentDefinedRanges_lengths bytes chunkSize
  have fixed := fixedRangesFrom_lengths (show 0 < max chunkSize 1 by omega) bytes.length
    bytes.length 0
  refine ⟨chunkRangesForBytes_covers chunking chunkSize bytes, ?_, ?_, ?_, ?_⟩
  · unfold chunkRangesForBytes
    split
    · exact fun range inside => (cdc.1 range inside).1
    · exact fixed.1
  · rintro rfl
    unfold chunkRangesForBytes
    split <;> rfl
  · rintro rfl
    exact fixed.2
  · rintro rfl
    rw [Nat.min_comm]
    exact ⟨cdc.2, fun range inside => (cdc.1 range inside).2⟩

/-- The hash behind some bytes. Each byte is rolled in once, whatever the cuts are. -/
def hashBehind (bytes : Bytes) : UInt64 := bytes.foldl roll 0

def rangesBehind (target : Nat) (rolling : UInt64) (bytes : Bytes) : List (Nat × Nat) :=
  let target := max target 1024
  let shortest := min (max (target / 4) 1024) target
  let longest := max (target * 4) (shortest + 1)
  let mask := max (target.nextPowerOfTwo - 1) 1
  contentDefinedRangesFrom shortest longest mask.toUInt64 bytes.length 0 rolling bytes

def piecesBehind (target : Nat) (rolling : UInt64) (bytes : Bytes) : List Bytes :=
  (rangesBehind target rolling bytes).map (slice bytes)

/-- The ends of a byte string count as boundaries. -/
def IsBoundary (target : Nat) (bytes : Bytes) (position : Nat) : Prop :=
  position = 0 ∨ position = bytes.length ∨
    ∃ range ∈ contentDefinedRanges bytes target, range.2 = position

instance (target : Nat) (bytes : Bytes) (position : Nat) :
    Decidable (IsBoundary target bytes position) :=
  inferInstanceAs (Decidable (_ ∨ _ ∨ _))

/-- The chunks that begin at a position or after it. -/
def piecesAfter (target : Nat) (bytes : Bytes) (position : Nat) : List Bytes :=
  ((contentDefinedRanges bytes target).filter (fun range => position ≤ range.1)).map (slice bytes)

theorem cut_rolling (shortest longest : Nat) (mask rolling : UInt64) (length : Nat) (bytes : Bytes) :
    (cut shortest longest mask rolling length bytes).2 =
      (bytes.take ((cut shortest longest mask rolling length bytes).1 - length)).foldl roll
        rolling := by
  fun_induction cut shortest longest mask rolling length bytes with
  | case1 => simp
  | case2 rolling length byte rest more rolled => simp [rolled]
  | case3 rolling length byte rest more rolled here ih =>
    have beyond := (cut_le shortest longest mask rolled (length + 1) rest).1
    have count : (cut shortest longest mask rolled (length + 1) rest).1 - length =
        (cut shortest longest mask rolled (length + 1) rest).1 - (length + 1) + 1 := by
      omega
    rw [count, List.take_succ_cons, List.foldl_cons]
    exact ih
  | case4 => simp

/-- A cut before the limit and before the end is one of the hash. -/
theorem cut_stops {shortest longest length : Nat} {mask rolling : UInt64} {bytes : Bytes}
    (less : (cut shortest longest mask rolling length bytes).1 < length + bytes.length)
    (short : (cut shortest longest mask rolling length bytes).1 < longest) :
    (cut shortest longest mask rolling length bytes).2 &&& mask = 0 := by
  fun_induction cut shortest longest mask rolling length bytes with
  | case1 => simp at less
  | case2 rolling length byte rest more rolled here => exact here.2
  | case3 rolling length byte rest more rolled here ih =>
    refine ih ?_ short
    simp only [List.length_cons] at less
    omega
  | case4 rolling length byte rest more => exact absurd short more

/-- A cut that does not reach into what follows is there whatever follows. -/
theorem cut_congr {shortest longest length : Nat} {mask rolling : UInt64} {before after : Bytes}
    (some_ : after ≠ []) {after' : Bytes} (some' : after' ≠ [])
    (short : (cut shortest longest mask rolling length (before ++ after)).1 ≤
      length + before.length) :
    cut shortest longest mask rolling length (before ++ after') =
      cut shortest longest mask rolling length (before ++ after) := by
  induction before generalizing rolling length with
  | nil =>
    obtain ⟨byte, rest, rfl⟩ := List.exists_cons_of_ne_nil some_
    obtain ⟨byte', rest', rfl⟩ := List.exists_cons_of_ne_nil some'
    by_cases more : length < longest
    · -- a byte that fits is taken
      have taken := (cut_le shortest longest mask (roll rolling byte) (length + 1) rest).1
      simp only [List.nil_append, cut, if_pos more, List.length_nil] at short
      split at short
      · simp only at short
        omega
      · omega
    · simp only [List.nil_append, cut, if_neg more]
  | cons byte before ih =>
    simp only [List.cons_append, cut] at short ⊢
    split
    · next more =>
      rw [if_pos more] at short
      split
      · rfl
      · next cold =>
        rw [if_neg cold] at short
        refine ih (short.trans ?_)
        simp only [List.length_cons]
        omega
    · rfl

section Run

variable {longest : Nat}

theorem contentDefinedRangesFrom_shift (shortest : Nat) (mask : UInt64) (positive : 0 < longest)
    (shift start : Nat) (rolling : UInt64) {fuel fuel' : Nat} {rest : Bytes}
    (enough : rest.length ≤ fuel) (enough' : rest.length ≤ fuel') :
    contentDefinedRangesFrom shortest longest mask fuel (shift + start) rolling rest =
      (contentDefinedRangesFrom shortest longest mask fuel' start rolling rest).map
        (fun range => (shift + range.1, shift + range.2)) := by
  induction fuel generalizing fuel' start rolling rest with
  | zero =>
    rw [List.length_eq_zero_iff.mp (Nat.le_zero.mp enough)]
    cases fuel' <;> rfl
  | succ fuel ih =>
    cases rest with
    | nil => cases fuel' <;> rfl
    | cons byte tail =>
      cases fuel' with
      | zero => simp at enough'
      | succ fuel' =>
        have progress := cut_pos shortest positive mask rolling byte tail
        rw [contentDefinedRangesFrom, contentDefinedRangesFrom]
        generalize cut shortest longest mask rolling 0 (byte :: tail) = next at progress
        have left : ((byte :: tail).drop next.1).length ≤ min fuel fuel' := by
          simp only [List.length_drop, List.length_cons] at enough enough' ⊢
          omega
        rw [List.map_cons, ← ih _ _ (left.trans (min_le_left _ _)) (left.trans (min_le_right _ _)),
          Nat.add_assoc]

variable {shortest fuel start : Nat} {mask rolling : UInt64} {before after : Bytes}

/-- A chunk of the run ends behind the bytes before. -/
def Ends (shortest longest : Nat) (mask : UInt64) (fuel start : Nat) (rolling : UInt64)
    (before after : Bytes) : Prop :=
  before = [] ∨ ∃ range ∈ contentDefinedRangesFrom shortest longest mask fuel start rolling
    (before ++ after), range.2 = start + before.length

section Step

variable {next : Nat × UInt64} (positive : 0 < longest) (some_ : before ≠ [])
  (enough : (before ++ after).length ≤ fuel + 1)
  (first : cut shortest longest mask rolling 0 (before ++ after) = next)

include some_ first

theorem contentDefinedRangesFrom_first :
    contentDefinedRangesFrom shortest longest mask (fuel + 1) start rolling (before ++ after) =
      (start, start + next.1) :: contentDefinedRangesFrom shortest longest mask fuel
        (start + next.1) next.2 ((before ++ after).drop next.1) := by
  obtain ⟨byte, tail, rfl⟩ := List.exists_cons_of_ne_nil some_
  rw [← first]
  rfl

include positive

theorem first_pos : 0 < next.1 := by
  obtain ⟨byte, tail, rfl⟩ := List.exists_cons_of_ne_nil some_
  exact first ▸ cut_pos shortest positive mask rolling byte (tail ++ after)

include enough

theorem length_rest_le : (before.drop next.1 ++ after).length ≤ fuel := by
  have progress := first_pos positive some_ first
  have length := List.length_pos_iff.mpr some_
  rw [List.length_append] at enough
  rw [List.length_append, List.length_drop]
  omega

/-- The first chunk does not reach over the end of another. -/
theorem ends_succ_iff : Ends shortest longest mask (fuel + 1) start rolling before after ↔
    next.1 ≤ before.length ∧
      Ends shortest longest mask fuel (start + next.1) next.2 (before.drop next.1) after := by
  have progress := first_pos positive some_ first
  rw [Ends, Ends, contentDefinedRangesFrom_first some_ first, or_iff_right some_, List.length_drop, List.drop_eq_nil_iff]
  constructor
  · rintro ⟨range, inside, ends⟩
    rcases List.mem_cons.mp inside with rfl | later
    · have reached := Nat.add_left_cancel ends
      exact ⟨reached.le, Or.inl reached.ge⟩
    · have covers := contentDefinedRangesFrom_covers shortest positive mask next.2 fuel
        (start + next.1) ((before ++ after).drop next.1) (by rw [List.length_drop]; omega)
      have bounds := covers.bounds later
      have short : next.1 ≤ before.length := by omega
      rw [List.drop_append_of_le_length short] at later
      exact ⟨short, Or.inr ⟨range, later, by omega⟩⟩
  · rintro ⟨short, reached | ⟨range, later, ends⟩⟩
    · exact ⟨_, List.mem_cons_self, congrArg (start + ·) (Nat.le_antisymm short reached)⟩
    · rw [List.drop_append_of_le_length short]
      exact ⟨range, List.mem_cons_of_mem _ later, by omega⟩

end Step

theorem contentDefinedRangesFrom_append (positive : 0 < longest)
    (enough : (before ++ after).length ≤ fuel)
    (ends : Ends shortest longest mask fuel start rolling before after) :
    ∃ front fuel', contentDefinedRangesFrom shortest longest mask fuel start rolling
        (before ++ after) = front ++ contentDefinedRangesFrom shortest longest mask fuel'
          (start + before.length) (before.foldl roll rolling) after ∧
      (∀ range ∈ front, range.1 < start + before.length) ∧ after.length ≤ fuel' := by
  induction fuel generalizing start rolling before with
  | zero =>
    obtain ⟨rfl, rfl⟩ :=
      List.append_eq_nil_iff.mp (List.eq_nil_of_length_eq_zero (Nat.le_zero.mp enough))
    exact ⟨[], 0, rfl, by simp, Nat.le_refl _⟩
  | succ fuel ih =>
    by_cases none_ : before = []
    · subst none_
      exact ⟨[], fuel + 1, rfl, by simp, enough⟩
    generalize first : cut shortest longest mask rolling 0 (before ++ after) = next
    obtain ⟨short, later⟩ := (ends_succ_iff positive none_ enough first).mp ends
    obtain ⟨front, fuel', split, early, left⟩ :=
      ih (length_rest_le positive none_ enough first) later
    have place : start + next.1 + (before.drop next.1).length = start + before.length := by
      rw [List.length_drop]
      omega
    have hashed : (before.drop next.1).foldl roll next.2 = before.foldl roll rolling := by
      rw [← first, cut_rolling, first, Nat.sub_zero, List.take_append_of_le_length short,
        ← List.foldl_append, List.take_append_drop]
    rw [place] at early
    refine ⟨(start, start + next.1) :: front, fuel', ?_, ?_, left⟩
    · rw [contentDefinedRangesFrom_first none_ first, List.drop_append_of_le_length short, split,
        place, hashed, List.cons_append]
    · rintro range (_ | ⟨_, inside⟩)
      · have := List.length_pos_iff.mpr none_
        simp only
        omega
      · exact early range inside

/-- Whether a chunk ends behind some bytes does not depend on what follows. -/
theorem Ends.congr (positive : 0 < longest) (some_ : after ≠ []) {after' : Bytes}
    (some' : after' ≠ []) {fuel' : Nat} (enough : (before ++ after).length ≤ fuel)
    (enough' : (before ++ after').length ≤ fuel')
    (ends : Ends shortest longest mask fuel start rolling before after) :
    Ends shortest longest mask fuel' start rolling before after' := by
  induction fuel generalizing fuel' start rolling before with
  | zero =>
    have none_ := List.append_eq_nil_iff.mp (List.eq_nil_of_length_eq_zero (Nat.le_zero.mp enough))
    exact Or.inl none_.1
  | succ fuel ih =>
    by_cases none_ : before = []
    · exact Or.inl none_
    generalize first : cut shortest longest mask rolling 0 (before ++ after) = next
    obtain ⟨short, later⟩ := (ends_succ_iff positive none_ enough first).mp ends
    have same : cut shortest longest mask rolling 0 (before ++ after') = next :=
      (cut_congr some_ some' (by rw [first]; omega)).trans first
    obtain ⟨fuel', rfl⟩ : ∃ less, fuel' = less + 1 := by
      refine Nat.exists_eq_add_one_of_ne_zero ?_
      rintro rfl
      simp [none_] at enough'
    exact (ends_succ_iff positive none_ enough' same).mpr ⟨short,
      ih (length_rest_le positive none_ enough first) (length_rest_le positive none_ enough' same)
        later⟩

end Run

theorem slice_append (before after : Bytes) (range : Nat × Nat) :
    slice (before ++ after) (before.length + range.1, before.length + range.2) =
      slice after range := by
  have skipped : before.drop (before.length + range.1) = [] := List.drop_eq_nil_of_le (by omega)
  unfold slice
  rw [List.drop_append, skipped, List.nil_append, Nat.add_sub_cancel_left, Nat.add_sub_add_left]

theorem IsBoundary.cut {target : Nat} {before after : Bytes}
    (boundary : IsBoundary target (before ++ after) before.length) (some_ : after ≠ []) :
    before = [] ∨ ∃ range ∈ contentDefinedRanges (before ++ after) target,
      range.2 = 0 + before.length := by
  rcases boundary with start | finish | found
  · exact Or.inl (List.length_eq_zero_iff.mp start)
  · have := List.length_pos_iff.mpr some_
    rw [List.length_append] at finish
    omega
  · rw [Nat.zero_add]
    exact Or.inr found

theorem piecesAfter_boundary {target : Nat} {before after : Bytes}
    (boundary : IsBoundary target (before ++ after) before.length) :
    piecesAfter target (before ++ after) before.length =
      piecesBehind target (hashBehind before) after := by
  have covers := chunkRangesForBytes_covers "fastcdc" target (before ++ after)
  change Covers 0 (contentDefinedRanges (before ++ after) target) _ at covers
  have lengths := (contentDefinedRanges_lengths (before ++ after) target).1
  by_cases none_ : after = []
  · subst none_
    have late : (contentDefinedRanges (before ++ []) target).filter
        (fun range => before.length ≤ range.1) = [] := by
      rw [List.filter_eq_nil_iff]
      intro range inside
      have bounds := covers.bounds inside
      have proper := (lengths range inside).1
      simp only [List.append_nil, decide_eq_true_eq] at bounds ⊢
      omega
    rw [piecesAfter, late]
    rfl
  · have positive := longest_pos target
    obtain ⟨front, fuel', split, early, left⟩ :=
      contentDefinedRangesFrom_append positive (Nat.le_refl _) (boundary.cut none_)
    change contentDefinedRanges (before ++ after) target = _ at split
    have shifted := contentDefinedRangesFrom_shift
      (min (max (max target 1024 / 4) 1024) (max target 1024))
      (max ((max target 1024).nextPowerOfTwo - 1) 1).toUInt64 positive before.length 0
      (hashBehind before) left (Nat.le_refl after.length)
    simp only [Nat.add_zero] at shifted
    rw [Nat.zero_add] at split early
    change _ = front ++ contentDefinedRangesFrom _ _ _ fuel' _ (hashBehind before) after at split
    rw [shifted] at split
    have first : front.filter (fun range => before.length ≤ range.1) = [] := by
      rw [List.filter_eq_nil_iff]
      intro range inside
      have := early range inside
      simp only [decide_eq_true_eq]
      omega
    have rest : ((rangesBehind target (hashBehind before) after).map (fun range =>
        (before.length + range.1, before.length + range.2))).filter
          (fun range => before.length ≤ range.1) =
        (rangesBehind target (hashBehind before) after).map (fun range =>
          (before.length + range.1, before.length + range.2)) := by
      rw [List.filter_eq_self]
      intro range inside
      obtain ⟨own, -, rfl⟩ := List.mem_map.mp inside
      simp
    change _ = front ++ (rangesBehind target (hashBehind before) after).map _ at split
    rw [piecesAfter, split, List.filter_append, first, rest, List.nil_append, List.map_map]
    refine List.map_congr_left fun range _ => ?_
    exact slice_append before after range

/-- A chunk ends behind the bytes if anything follows them. -/
def EndsChunk (target : Nat) (bytes : Bytes) : Prop := IsBoundary target (bytes ++ [0]) bytes.length

theorem isBoundary_congr {target : Nat} {before after after' : Bytes} (some_ : after ≠ [])
    (some' : after' ≠ []) (boundary : IsBoundary target (before ++ after) before.length) :
    IsBoundary target (before ++ after') before.length := by
  have found := Ends.congr (longest_pos target) some_ some' (Nat.le_refl _) (Nat.le_refl _)
    (boundary.cut some_)
  rcases found with rfl | ⟨range, inside, ends⟩
  · exact Or.inl rfl
  · exact Or.inr (Or.inr ⟨range, inside, ends.trans (Nat.zero_add _)⟩)

section Telling

/-- The mask of a target is one of low bits. -/
theorem exists_bits (target : Nat) :
    ∃ bits, 0 < bits ∧ bits ≤ 64 ∧ ∀ rolling : UInt64,
      rolling &&& (max ((max target 1024).nextPowerOfTwo - 1) 1).toUInt64 = 0 ↔
        2 ^ bits ∣ rolling.toNat := by
  obtain ⟨power, eq⟩ := Nat.isPowerOfTwo_nextPowerOfTwo (max target 1024)
  have mask : max ((max target 1024).nextPowerOfTwo - 1) 1 = 2 ^ max power 1 - 1 := by
    rw [eq]
    cases power with
    | zero => rfl
    | succ power =>
      have two : 2 ≤ 2 ^ (power + 1) := by
        rw [pow_succ]
        have := Nat.two_pow_pos power
        omega
      rw [Nat.max_eq_left (by omega), Nat.max_eq_left (by omega)]
  have low : (2 ^ max power 1 - 1) % 2 ^ 64 = 2 ^ min (max power 1) 64 - 1 := by
    rcases Nat.le_total (max power 1) 64 with few | many
    · have bound : 2 ^ max power 1 ≤ 2 ^ 64 := Nat.pow_le_pow_right (by decide) few
      have one := Nat.two_pow_pos (max power 1)
      rw [Nat.min_eq_left few, Nat.mod_eq_of_lt (by omega)]
    · have one := Nat.two_pow_pos (max power 1 - 64)
      rw [Nat.min_eq_right many, ← Nat.sub_add_cancel many, pow_add]
      omega
  refine ⟨min (max power 1) 64, by omega, by omega, fun rolling => ?_⟩
  rw [← UInt64.toNat_inj, UInt64.toNat_and, mask]
  show rolling.toNat &&& ((2 ^ max power 1 - 1) % 2 ^ 64) = 0 ↔ _
  rw [low, Nat.and_two_pow_sub_one_eq_mod, Nat.dvd_iff_mod_eq_zero]

theorem cut_quiet {shortest longest length bits : Nat} {mask rolling : UInt64}
    (zeros : ∀ rolling : UInt64, rolling &&& mask = 0 ↔ 2 ^ bits ∣ rolling.toNat) {bytes : Bytes}
    (quiet : Quiet bits rolling bytes) (room : length + bytes.length ≤ longest) (rest : Bytes) :
    cut shortest longest mask rolling length (bytes ++ rest) =
      cut shortest longest mask (bytes.foldl roll rolling) (length + bytes.length) rest := by
  induction bytes generalizing rolling length with
  | nil => rfl
  | cons byte bytes ih =>
    simp only [List.length_cons] at room
    rw [List.cons_append, cut, if_pos (by omega)]
    dsimp only
    rw [if_neg fun here => quiet.1 ((zeros _).mp here.2), ih quiet.2 (by omega), List.foldl_cons,
      List.length_cons, Nat.add_assoc, Nat.add_comm 1]

theorem length_head_pieces (shortest longest fuel : Nat) (mask rolling : UInt64) (byte : UInt8)
    (rest : Bytes) :
    ((contentDefinedRangesFrom shortest longest mask (fuel + 1) 0 rolling (byte :: rest)).map
        (slice (byte :: rest))).head?.map List.length =
      some (cut shortest longest mask rolling 0 (byte :: rest)).1 := by
  have whole := (cut_le shortest longest mask rolling 0 (byte :: rest)).2
  simp only [contentDefinedRangesFrom, List.map_cons, List.head?_cons, Option.map_some, slice,
    List.length_take, List.length_drop]
  congr 1
  omega

theorem exists_cut_ne {shortest longest bits : Nat} {mask first second : UInt64}
    (zeros : ∀ rolling : UInt64, rolling &&& mask = 0 ↔ 2 ^ bits ∣ rolling.toNat)
    (positive : 0 < bits) (small : bits ≤ 64) (room : bits ≤ shortest)
    (wide : shortest + 63 < longest) (differ : first ≠ second) :
    ∃ byte rest, (cut shortest longest mask first 0 (byte :: rest)).1 ≠
      (cut shortest longest mask second 0 (byte :: rest)).1 := by
  obtain ⟨bytes, last, least, most, quiet, zero, other⟩ :=
    exists_telling_apart positive small room differ
  obtain ⟨byte, rest, tail⟩ : ∃ byte rest, bytes ++ [last] ++ [0] = byte :: rest :=
    List.exists_cons_of_ne_nil (by simp)
  refine ⟨byte, rest, fun same => other ?_⟩
  rw [← tail] at same
  rw [List.foldl_append, List.foldl_cons, List.foldl_nil] at zero
  have ends : (cut shortest longest mask first 0 (bytes ++ [last] ++ [0])).1 =
      (bytes ++ [last]).length := by
    rw [List.append_assoc, cut_quiet zeros quiet (by omega), List.singleton_append, cut,
      if_pos (by omega)]
    dsimp only
    rw [if_pos ⟨by omega, (zeros _).mpr zero⟩, List.length_append]
    simp
  rw [ends] at same
  have rolled := cut_rolling shortest longest mask second 0 (bytes ++ [last] ++ [0])
  rw [← same, Nat.sub_zero, List.take_left] at rolled
  have stops : (cut shortest longest mask second 0 (bytes ++ [last] ++ [0])).2 &&& mask = 0 := by
    apply cut_stops <;> rw [← same]
    · simp
    · simp only [List.length_append, List.length_singleton]
      omega
  rw [rolled] at stops
  exact (zeros _).mp stops

/-- Some tail is cut otherwise behind another hash. -/
theorem exists_piecesBehind_ne (target : Nat) {first second : UInt64} (differ : first ≠ second) :
    ∃ tail, tail ≠ [] ∧ piecesBehind target first tail ≠ piecesBehind target second tail := by
  obtain ⟨bits, positive, small, zeros⟩ := exists_bits target
  have wide : min (max (max target 1024 / 4) 1024) (max target 1024) + 63 <
      max (max target 1024 * 4) (min (max (max target 1024 / 4) 1024) (max target 1024) + 1) := by
    omega
  obtain ⟨byte, rest, apart⟩ := exists_cut_ne zeros positive small (by omega) wide differ
  refine ⟨byte :: rest, by simp, fun same => apart (Option.some.inj ?_)⟩
  rw [← length_head_pieces _ _ rest.length _ first, ← length_head_pieces _ _ rest.length _ second]
  exact congrArg (fun pieces => pieces.head?.map List.length) same

end Telling

/-- Behind two boundaries every common tail is cut into the same pieces exactly if the hashes of
what lies before them are the same. -/
theorem piecesAfter_eq_iff (target : Nat) (a b : Bytes) :
    (∀ tail, IsBoundary target (a ++ tail) a.length → IsBoundary target (b ++ tail) b.length →
        piecesAfter target (a ++ tail) a.length = piecesAfter target (b ++ tail) b.length) ↔
      (EndsChunk target a → EndsChunk target b → hashBehind a = hashBehind b) := by
  constructor
  · intro alike first second
    by_contra differ
    obtain ⟨tail, some_, apart⟩ := exists_piecesBehind_ne target differ
    have one : [(0 : UInt8)] ≠ [] := by simp
    have boundary := isBoundary_congr one some_ first
    have boundary' := isBoundary_congr one some_ second
    have same := alike tail boundary boundary'
    rw [piecesAfter_boundary boundary, piecesAfter_boundary boundary'] at same
    exact apart same
  · intro same tail boundary boundary'
    rw [piecesAfter_boundary boundary, piecesAfter_boundary boundary']
    by_cases none_ : tail = []
    · subst none_
      rfl
    · have one : [(0 : UInt8)] ≠ [] := by simp
      rw [same (isBoundary_congr none_ one boundary) (isBoundary_congr none_ one boundary')]

namespace InsertedBlock

def zeros (count : Nat) : Bytes := List.replicate count 0

def block : Bytes := List.replicate 1024 34

end InsertedBlock

open InsertedBlock in
/-- Zeros leave the hash at zero, so a block of them in front changes nothing. -/
theorem piecesAfter_zeros :
    piecesAfter 0 (zeros 1024 ++ zeros 1025) (zeros 1024).length =
      piecesAfter 0 ([] ++ zeros 1025) ([] : Bytes).length := by
  have same : hashBehind (zeros 1024) = hashBehind [] := by decide +kernel
  refine (piecesAfter_eq_iff 0 (zeros 1024) []).mpr (fun _ _ => same) (zeros 1025) ?_ (Or.inl rfl)
  decide +kernel

open InsertedBlock in
/-- Behind a block of other bytes the same zeros are cut elsewhere. -/
theorem piecesAfter_block :
    IsBoundary 0 ([] ++ zeros 1025) ([] : Bytes).length ∧
      IsBoundary 0 (block ++ zeros 1025) block.length ∧
      piecesAfter 0 ([] ++ zeros 1025) ([] : Bytes).length ≠
        piecesAfter 0 (block ++ zeros 1025) block.length := by
  refine ⟨Or.inl rfl, ?_, ?_⟩
  · decide +kernel
  · decide +kernel

end Majutsu.Repo
