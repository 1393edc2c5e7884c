import Mathlib.Algebra.Order.BigOperators.GroupWithZero.List
import Mathlib.Tactic.Linarith

/-!
# Relative times

`parse_duration_ago`, `parse_relative_ago` and `parse_restore_time` over the characters of
their input. The duration parser cuts its text one byte before the end and computes the
seconds in `i64` without checks, so a call may panic, or in a release build wrap around.
What the functions are for is said over the unbounded numbers (`durationAmount`,
`agoAmount`), and the theorem says exactly when they do it. Chrono's parsers of absolute
times are arguments; an instant is its count of nanoseconds.
-/

namespace RelativeTime

/-- How a call ends without a value. -/
inductive Stop where
  | error (message : String)
  | panicked
deriving DecidableEq

abbrev Outcome := Except Stop

/-- `overflow-checks` as the two build profiles have it. -/
inductive Profile where
  | debug
  | release
deriving DecidableEq

/-- The range from `DateTime::MIN_UTC` to `DateTime::MAX_UTC`, in nanoseconds. -/
def Representable (t : Int) : Prop :=
  -8334601228800 * 1000000000 ≤ t ∧ t ≤ 8210266876799 * 1000000000 + 999999999

instance (t : Int) : Decidable (Representable t) := inferInstanceAs (Decidable (_ ∧ _))

abbrev Instant := { t : Int // Representable t }

def InI64 (n : Int) : Prop := -9223372036854775808 ≤ n ∧ n ≤ 9223372036854775807

instance (n : Int) : Decidable (InI64 n) := inferInstanceAs (Decidable (_ ∧ _))

def mulI64 (profile : Profile) (a b : Int) : Outcome Int :=
  if InI64 (a * b) then .ok (a * b)
  else match profile with
    | .debug => .error .panicked
    | .release => .ok ((a * b).bmod 18446744073709551616)

inductive TimeUnit where
  | second
  | minute
  | hour
  | day
deriving DecidableEq

/-- The multiplications of each unit, in the order of the source. -/
def TimeUnit.factors : TimeUnit → List Int
  | .second => []
  | .minute => [60]
  | .hour => [60, 60]
  | .day => [24, 60, 60]

def TimeUnit.seconds (unit : TimeUnit) : Int := unit.factors.prod

/-- `now - chrono::Duration::seconds(seconds)`: both the duration and the difference panic
outside their range. -/
def minusSeconds (now : Instant) (seconds : Int) : Outcome Instant :=
  if -9223372036854775 ≤ seconds ∧ seconds ≤ 9223372036854775 then
    if h : Representable (now.1 - seconds * 1000000000) then .ok ⟨_, h⟩ else .error .panicked
  else .error .panicked

/-- The time a number of units before `now`, with the seconds computed in `i64`. -/
def unitsAgo (profile : Profile) (now : Instant) (n : Int) (unit : TimeUnit) :
    Outcome Instant := do
  let seconds ← unit.factors.foldlM (mulI64 profile) n
  minusSeconds now seconds

def isWhitespace (c : Char) : Bool :=
  let n := c.toNat
  (9 ≤ n && n ≤ 13) || n == 32 || n == 0x85 || n == 0xA0 || n == 0x1680 ||
    (0x2000 ≤ n && n ≤ 0x200A) || n == 0x2028 || n == 0x2029 || n == 0x202F || n == 0x205F ||
    n == 0x3000

def trim (text : List Char) : List Char :=
  ((text.dropWhile isWhitespace).reverse.dropWhile isWhitespace).reverse

def splitWhitespace (text : List Char) : List (List Char) :=
  (text.splitOnP isWhitespace).filter (· ≠ [])

def byteLength (text : List Char) : Nat := (text.map Char.utf8Size).sum

/-- `str::split_at`; `none` is the panic at a position inside a character or past the end. -/
def splitAt : List Char → Nat → Option (List Char × List Char)
  | text, 0 => some ([], text)
  | [], _ + 1 => none
  | c :: text, at_ + 1 =>
    if c.utf8Size ≤ at_ + 1 then
      (splitAt text (at_ + 1 - c.utf8Size)).map fun parts => (c :: parts.1, parts.2)
    else none

/-- The digits of `i64::from_str`, accumulated with the sign. -/
def digits (negative : Bool) : Int → List Char → Except String Int
  | total, [] => .ok total
  | total, c :: text =>
    if c.isDigit then
      let digit : Int := (c.toNat - '0'.toNat : Nat)
      let next := if negative then total * 10 - digit else total * 10 + digit
      if InI64 next then digits negative next text
      else .error (if negative then "number too small to fit in target type"
        else "number too large to fit in target type")
    else .error "invalid digit found in string"

/-- `i64::from_str`. -/
def parseI64 : List Char → Except String Int
  | [] => .error "cannot parse integer from empty string"
  | ['+'] => .error "invalid digit found in string"
  | ['-'] => .error "invalid digit found in string"
  | '+' :: text => digits false 0 text
  | '-' :: text => digits true 0 text
  | text => digits false 0 text

def letterUnit : List Char → Option TimeUnit
  | ['d'] => some .day
  | ['h'] => some .hour
  | ['m'] => some .minute
  | ['s'] => some .second
  | _ => none

def wordUnit (word : List Char) : Option TimeUnit :=
  if String.ofList word ∈ ["second", "seconds", "sec", "secs"] then some .second
  else if String.ofList word ∈ ["minute", "minutes", "min", "mins"] then some .minute
  else if String.ofList word ∈ ["hour", "hours"] then some .hour
  else if String.ofList word ∈ ["day", "days"] then some .day
  else none

/-- An anyhow error of a text's number. -/
def number (text : List Char) : Outcome Int := (parseI64 text).mapError Stop.error

def parseDurationAgo (profile : Profile) (input : List Char) (now : Instant) :
    Outcome Instant :=
  match splitAt input (byteLength input - 1) with
  | none => .error .panicked
  | some (text, unit) => do
    let value ← number text
    match letterUnit unit with
    | some unit => unitsAgo profile now value unit
    | none => .error (.error
        ("duration must use s, m, h, or d suffix: " ++ String.ofList input))

/-- The text before ` ago`, trimmed and in lower case. -/
def agoText (input : List Char) : Option (List Char) :=
  let normalized := (trim input).map Char.toLower
  if " ago".toList.isSuffixOf normalized then
    some (trim (normalized.take (normalized.length - 4)))
  else none

/-- The second reading of `parse_relative_ago`: a number and a word. -/
def wordsAgo (profile : Profile) (compact : List Char) (now : Instant) :
    Outcome (Option Instant) :=
  match splitWhitespace compact with
  | [text, word] => do
    let n ← number text
    match wordUnit word with
    | some unit => some <$> unitsAgo profile now n unit
    | none => .ok none
  | _ => .ok none

/-- The readings of the text before ` ago`. A panic of the first is not caught. -/
def compactAgo (profile : Profile) (compact : List Char) (now : Instant) :
    Outcome (Option Instant) :=
  match parseDurationAgo profile compact now with
  | .ok dt => .ok (some dt)
  | .error .panicked => .error .panicked
  | .error (.error _) => wordsAgo profile compact now

def parseRelativeAgo (profile : Profile) (input : List Char) (now : Instant) :
    Outcome (Option Instant) :=
  match agoText input with
  | none => .ok none
  | some compact => compactAgo profile compact now

/-- The absolute parsers: RFC 3339, and a local date with and without a clock, where a local
time may not exist. -/
structure Absolute where
  rfc3339 : List Char → Option Instant
  localDateTime : List Char → Option (Option Instant)
  localDate : List Char → Option (Option Instant)

def Absolute.reads (absolute : Absolute) (input : List Char) : Bool :=
  (absolute.rfc3339 input).isSome || (absolute.localDateTime input).isSome ||
    (absolute.localDate input).isSome

def localDatetime (input : List Char) : Option Instant → Outcome Instant
  | some dt => .ok dt
  | none => .error (.error ("invalid local time: " ++ String.ofList input))

def parseRestoreTime (profile : Profile) (absolute : Absolute) (input : List Char)
    (now : Instant) : Outcome Instant :=
  match absolute.rfc3339 input, absolute.localDateTime input, absolute.localDate input with
  | some dt, _, _ => .ok dt
  | none, some dt, _ => localDatetime input dt
  | none, none, some dt => localDatetime input dt
  | none, none, none =>
    if input = "now".toList then .ok now
    else
      match parseRelativeAgo profile input now with
      | .ok (some dt) => .ok dt
      | .ok none => .error (.error ("time must be RFC3339, YYYY-MM-DD HH:MM:SS, YYYY-MM-DD, " ++
          "relative ago, or now, got: " ++ String.ofList input))
      | .error stop => .error stop

def natural (text : List Char) : Option Nat :=
  if text ≠ [] ∧ text.all Char.isDigit then some (Nat.ofDigitChars 10 text 0) else none

def signed (negative : Bool) (n : Nat) : Int := if negative then -(n : Int) else n

/-- The number a text writes, of any size. -/
def numeral : List Char → Option Int
  | '+' :: text => (natural text).map (signed false)
  | '-' :: text => (natural text).map (signed true)
  | text => (natural text).map (signed false)

/-- The number and the unit of a text such as `3d`. -/
def durationAmount (text : List Char) : Option (Int × TimeUnit) := do
  let last ← text.getLast?
  let unit ← letterUnit [last]
  let n ← numeral text.dropLast
  some (n, unit)

/-- The number and the unit of a text such as `3 days`. -/
def wordsAmount (text : List Char) : Option (Int × TimeUnit) :=
  match splitWhitespace text with
  | [text, word] => do
    let n ← numeral text
    let unit ← wordUnit word
    some (n, unit)
  | _ => none

def agoAmount (compact : List Char) : Option (Int × TimeUnit) :=
  durationAmount compact <|> wordsAmount compact

def ago (now : Instant) (n : Int) (unit : TimeUnit) : Int :=
  now.1 - n * unit.seconds * 1000000000

/-- A result that holds the exact time of the amount read, and refuses when there is none or
the time is not representable. -/
def Exact (now : Instant) (amount : Option (Int × TimeUnit)) (accepts : Instant → Prop)
    (refuses : Prop) : Prop :=
  match amount with
  | some (n, unit) => if h : Representable (ago now n unit) then accepts ⟨_, h⟩ else refuses
  | none => refuses

/-- The amounts whose time is representable or whose number is no `i64`. -/
def Tame (now : Instant) (amount : Option (Int × TimeUnit)) : Prop :=
  ∀ n unit, amount = some (n, unit) → InI64 n → Representable (ago now n unit)

/-- The last byte of the text is a character. -/
def EndsInByte (text : List Char) : Prop := ∀ c, text.getLast? = some c → c.utf8Size = 1

variable {profile : Profile} {now : Instant}

variable {unit : TimeUnit} {n : Int} {negative : Bool} {text input : List Char} {c : Char}
  {amount : Option (Int × TimeUnit)} {accepts : Instant → Prop} {refuses : Prop}

theorem pos_of_mem_factors {f : Int} (h : f ∈ unit.factors) : 0 < f := by
  cases unit <;> simp [TimeUnit.factors] at h <;> omega

theorem inI64_of_mul {m g : Int} (pos : 0 < g) (h : InI64 (m * g)) : InI64 m := by
  unfold InI64 at h ⊢
  rcases Int.lt_or_le m 0 with neg | nonneg
  · have : m * g ≤ m * 1 := Int.mul_le_mul_of_nonpos_left (by omega) pos
    omega
  · have : m * 1 ≤ m * g := Int.mul_le_mul_of_nonneg_left pos nonneg
    omega

/-- A product in range is computed exactly: the factors are positive, so the products on the
way are in range too. -/
theorem foldlM_mul_exact (profile : Profile) (factors : List Int) (pos : ∀ f ∈ factors, 0 < f) (n : Int)
    (range : InI64 (n * factors.prod)) :
    factors.foldlM (mulI64 profile) n = .ok (n * factors.prod) := by
  induction factors generalizing n with
  | nil => simp [pure, Except.pure]
  | cons f rest ih =>
    have later : ∀ g ∈ rest, 0 < g := fun g hg => pos g (List.mem_cons_of_mem _ hg)
    rw [List.prod_cons, ← mul_assoc] at range ⊢
    have exact : mulI64 profile n f = .ok (n * f) :=
      if_pos (inI64_of_mul (List.prod_pos later) range)
    rw [List.foldlM_cons, exact]
    exact ih later _ range

theorem foldlM_mul_no_error (profile : Profile) (factors : List Int) (n : Int) (message : String) :
    factors.foldlM (mulI64 profile) n ≠ .error (.error message) := by
  induction factors generalizing n with
  | nil => simp [pure, Except.pure]
  | cons f rest ih =>
    rw [List.foldlM_cons]
    unfold mulI64
    split
    · exact ih _
    · cases profile with
      | debug => simp [bind, Except.bind]
      | release => exact ih _

theorem minusSeconds_no_error (seconds : Int) (message : String) :
    minusSeconds now seconds ≠ .error (.error message) := by
  unfold minusSeconds
  split
  · split <;> simp
  · simp

theorem unitsAgo_no_error (n : Int) (unit : TimeUnit) (message : String) :
    unitsAgo profile now n unit ≠ .error (.error message) := by
  unfold unitsAgo
  have scaled := foldlM_mul_no_error profile unit.factors n
  cases eq : unit.factors.foldlM (mulI64 profile) n with
  | ok seconds => exact minusSeconds_no_error seconds message
  | error stop =>
    rintro ⟨⟩
    exact scaled message eq

theorem unitsAgo_exact (h : Representable (ago now n unit)) :
    unitsAgo profile now n unit = .ok ⟨_, h⟩ := by
  have ⟨low, high⟩ := h
  obtain ⟨nowLow, nowHigh⟩ := now.2
  unfold ago at low high
  have range : InI64 (n * unit.seconds) := ⟨by omega, by omega⟩
  have scaled := foldlM_mul_exact profile _ (fun _ => pos_of_mem_factors) n range
  change (unit.factors.foldlM (mulI64 profile) n >>= minusSeconds now) = _
  rw [scaled]
  change minusSeconds now (n * unit.seconds) = _
  unfold minusSeconds
  rw [if_pos (by omega)]
  exact dif_pos h

theorem inI64_signed_of_le {m n : Nat} (le : m ≤ n) (h : InI64 (signed negative n)) :
    InI64 (signed negative m) := by
  unfold InI64 signed at *
  split at h <;> split <;> omega

theorem le_ofDigitChars (text : List Char) (total : Nat) :
    total ≤ Nat.ofDigitChars 10 text total := by
  induction text generalizing total with
  | nil => simp
  | cons c text ih =>
    rw [Nat.ofDigitChars_cons]
    exact le_trans (by omega) (ih _)

theorem digits_eq_ok {total : Nat} (range : InI64 (signed negative total)) :
    digits negative (signed negative total) text = .ok n ↔ text.all Char.isDigit ∧
      n = signed negative (Nat.ofDigitChars 10 text total) ∧ InI64 n := by
  induction text generalizing total with
  | nil =>
    simp only [digits, Except.ok.injEq, List.all_nil, Nat.ofDigitChars_nil, true_and]
    constructor
    · rintro rfl
      exact ⟨rfl, range⟩
    · exact fun h => h.1.symm
  | cons c text ih =>
    have next : (if negative then signed negative total * 10 - ((c.toNat - '0'.toNat : Nat) : Int)
        else signed negative total * 10 + ((c.toNat - '0'.toNat : Nat) : Int)) =
        signed negative (10 * total + (c.toNat - '0'.toNat)) := by
      unfold signed
      split <;> omega
    simp only [digits, next, List.all_cons, Nat.ofDigitChars_cons]
    by_cases digit : c.isDigit
    · simp only [digit, if_true, Bool.true_and]
      split
      · next inRange => exact ih inRange
      · next outside =>
        -- The number only grows, so what is out of range here is at the end.
        refine ⟨nofun, ?_⟩
        rintro ⟨-, rfl, inRange⟩
        exact absurd (inI64_signed_of_le (le_ofDigitChars text _) inRange) outside
    · simp [digit]

theorem digits_eq_ok_iff_natural (some_ : text ≠ []) : digits negative 0 text = .ok n ↔
      (natural text).map (signed negative) = some n ∧ InI64 n := by
  have zero : signed negative 0 = 0 := by cases negative <;> rfl
  have start : digits negative (signed negative 0) text = .ok n ↔ _ :=
    digits_eq_ok (by rw [zero]; decide)
  rw [zero] at start
  rw [start]
  unfold natural
  by_cases digit : text.all Char.isDigit
  · simp [digit, some_, eq_comm]
  · simp [digit]

theorem parseI64_eq_ok : parseI64 text = .ok n ↔ numeral text = some n ∧ InI64 n := by
  unfold parseI64
  split
  · simp [numeral, natural]
  · simp [numeral, natural]
  · simp [numeral, natural]
  · next rest more => exact digits_eq_ok_iff_natural fun h => more (by rw [h])
  · next rest more => exact digits_eq_ok_iff_natural fun h => more (by rw [h])
  · next some_ _ _ noPlus noMinus =>
    rw [digits_eq_ok_iff_natural some_]
    unfold numeral
    split
    · exact absurd rfl (noPlus _)
    · exact absurd rfl (noMinus _)
    · rfl

theorem number_eq (text : List Char) : (∃ n, numeral text = some n ∧ InI64 n ∧
      number text = .ok n) ∨ (∀ n, numeral text = some n → ¬InI64 n) ∧
      ∃ message, number text = .error (.error message) := by
  unfold number
  cases eq : parseI64 text with
  | ok n =>
    obtain ⟨writes, range⟩ := parseI64_eq_ok.1 eq
    exact Or.inl ⟨n, writes, range, rfl⟩
  | error message =>
    refine Or.inr ⟨fun n writes range => ?_, message, rfl⟩
    rw [parseI64_eq_ok.2 ⟨writes, range⟩] at eq
    exact nomatch eq

theorem byteLength_append (text : List Char) (c : Char) :
    byteLength (text ++ [c]) = byteLength text + c.utf8Size := by
  simp [byteLength]

theorem splitAt_last (text : List Char) {k : Nat} (h : k < c.utf8Size) :
    splitAt (text ++ [c]) (byteLength text + k) = if k = 0 then some (text, [c]) else none := by
  induction text with
  | nil =>
    cases k with
    | zero => rfl
    | succ k => simp [splitAt, byteLength, show ¬c.utf8Size ≤ k + 1 by omega]
  | cons x text ih =>
    have pos := x.utf8Size_pos
    obtain ⟨m, eq⟩ : ∃ m, byteLength (x :: text) + k = m + 1 :=
      ⟨byteLength (x :: text) + k - 1, by simp only [byteLength, List.map_cons, List.sum_cons]; omega⟩
    have size : byteLength (x :: text) = x.utf8Size + byteLength text := by simp [byteLength]
    rw [List.cons_append, eq, splitAt, if_pos (by omega),
      show m + 1 - x.utf8Size = byteLength text + k by omega, ih]
    split <;> rfl

theorem splitAt_byteLength (text : List Char) (c : Char) :
    splitAt (text ++ [c]) (byteLength (text ++ [c]) - 1) =
      if c.utf8Size = 1 then some (text, [c]) else none := by
  have pos := c.utf8Size_pos
  rw [byteLength_append, show byteLength text + c.utf8Size - 1 =
    byteLength text + (c.utf8Size - 1) by omega, splitAt_last text (by omega)]
  have same : c.utf8Size - 1 = 0 ↔ c.utf8Size = 1 := by omega
  simp only [same]

theorem unitsAgo_cases (profile : Profile) (now : Instant) (n : Int) (unit : TimeUnit) :
    (∃ dt, unitsAgo profile now n unit = .ok dt) ∨
      unitsAgo profile now n unit = .error .panicked := by
  cases eq : unitsAgo profile now n unit with
  | ok dt => exact Or.inl ⟨dt, rfl⟩
  | error stop =>
    cases stop with
    | error message => exact absurd eq (unitsAgo_no_error n unit message)
    | panicked => exact Or.inr rfl

/-- No amount with an `i64` is read. -/
def Outside (amount : Option (Int × TimeUnit)) : Prop :=
  ∀ n unit, amount = some (n, unit) → ¬InI64 n

theorem endsInByte_concat : EndsInByte (text ++ [c]) ↔ c.utf8Size = 1 := by
  simp [EndsInByte]

theorem parseDurationAgo_panics (h : ¬EndsInByte input) :
    parseDurationAgo profile input now = .error .panicked := by
  rcases List.eq_nil_or_concat input with rfl | ⟨text, c, rfl⟩
  · exact absurd (fun c h => nomatch h) h
  · rw [List.concat_eq_append, endsInByte_concat] at h
    rw [List.concat_eq_append, parseDurationAgo, splitAt_byteLength, if_neg h]

theorem parseDurationAgo_cases (profile : Profile) (now : Instant) (h : EndsInByte input) :
    (∃ n unit, durationAmount input = some (n, unit) ∧ InI64 n ∧
      parseDurationAgo profile input now = unitsAgo profile now n unit) ∨
    Outside (durationAmount input) ∧
      ∃ message, parseDurationAgo profile input now = .error (.error message) := by
  rcases List.eq_nil_or_concat input with rfl | ⟨text, c, rfl⟩
  · exact Or.inr ⟨(fun n unit h => nomatch h), _, rfl⟩
  rw [List.concat_eq_append] at h ⊢
  have amount : durationAmount (text ++ [c]) =
      (letterUnit [c]).bind fun unit => (numeral text).map fun n => (n, unit) := by
    unfold durationAmount
    simp only [List.getLast?_concat, List.dropLast_concat, Option.bind_eq_bind, Option.bind_some]
    cases letterUnit [c] with
    | none => rfl
    | some unit => cases numeral text <;> rfl
  rw [amount, parseDurationAgo, splitAt_byteLength, if_pos (endsInByte_concat.1 h)]
  dsimp only
  rcases number_eq text with ⟨n, writes, range, eq⟩ | ⟨outside, message, eq⟩
  · rw [eq, writes]
    cases letterUnit [c] with
    | none => exact Or.inr ⟨(fun n unit h => nomatch h), _, rfl⟩
    | some unit => exact Or.inl ⟨n, unit, rfl, range, rfl⟩
  · rw [eq]
    refine Or.inr ⟨fun n unit h => outside n ?_, message, rfl⟩
    cases units : letterUnit [c] with
    | none =>
      rw [units] at h
      exact nomatch h
    | some unit' =>
      rw [units, Option.bind_some, Option.map_eq_some_iff] at h
      obtain ⟨n', writes, eq⟩ := h
      rw [writes, (Prod.mk.inj eq).1]

theorem not_whitespace_of_isDigit (h : c.isDigit) : ¬isWhitespace c := by
  obtain ⟨low, high⟩ := Char.isDigit_iff_toNat.1 h
  have zero : '0'.toNat = 48 := rfl
  have nine : '9'.toNat = 57 := rfl
  simp only [isWhitespace, Bool.or_eq_true, Bool.and_eq_true, decide_eq_true_eq, beq_iff_eq]
  omega

theorem not_whitespace_of_numeral (h : numeral text = some n) (mem : c ∈ text) :
    ¬isWhitespace c := by
  have all : ∀ text m, natural text = some m → ∀ c ∈ text, ¬isWhitespace c := by
    intro text m writes c mem
    unfold natural at writes
    split at writes
    · next digit => exact not_whitespace_of_isDigit (List.all_eq_true.1 digit.2 c mem)
    · exact nomatch writes
  unfold numeral at h
  split at h
  all_goals obtain ⟨m, writes, -⟩ := Option.map_eq_some_iff.1 h
  case h_3 => exact all _ m writes c mem
  all_goals
    rcases List.mem_cons.1 mem with rfl | mem
    · decide
    · exact all _ m writes c mem

theorem not_whitespace_of_letterUnit (h : letterUnit [c] = some unit) : ¬isWhitespace c := by
  unfold letterUnit at h
  split at h
  case h_5 => exact nomatch h
  all_goals
    next eq =>
    obtain ⟨rfl, -⟩ := List.cons.inj eq
    decide

theorem splitWhitespace_of_duration (h : durationAmount text = some (n, unit)) :
    splitWhitespace text = [text] := by
  rcases List.eq_nil_or_concat text with rfl | ⟨front, c, rfl⟩
  · exact nomatch h
  rw [List.concat_eq_append] at h ⊢
  simp only [durationAmount, List.getLast?_concat, List.dropLast_concat, Option.bind_eq_bind,
    Option.bind_some, Option.bind_eq_some_iff] at h
  obtain ⟨unit', letter, n', writes, -⟩ := h
  have plain : ∀ x ∈ front ++ [c], isWhitespace x = false := by
    intro x mem
    rw [← Bool.not_eq_true]
    rcases List.mem_append.1 mem with mem | mem
    · exact not_whitespace_of_numeral writes mem
    · rw [List.mem_singleton.1 mem]
      exact not_whitespace_of_letterUnit letter
  unfold splitWhitespace
  rw [List.splitOnP_eq_singleton plain]
  simp

/-- The code refuses: an error, or no time read. -/
def Refused (r : Outcome (Option Instant)) : Prop :=
  r = .ok none ∨ ∃ message, r = .error (.error message)

theorem not_refused_panicked : ¬Refused (.error .panicked) := by
  rintro (error | ⟨message, error⟩)
  · exact nomatch error
  · exact nomatch error

theorem not_refused_unitsAgo : ¬Refused (some <$> unitsAgo profile now n unit) := by
  rcases unitsAgo_cases profile now n unit with ⟨dt, eq⟩ | eq
  · rw [eq]
    rintro (error | ⟨message, error⟩)
    · exact nomatch error
    · exact nomatch error
  · rw [eq]
    exact not_refused_panicked

theorem wordsAgo_cases (profile : Profile) (compact : List Char) (now : Instant) :
    (∃ n unit, wordsAmount compact = some (n, unit) ∧ InI64 n ∧
      wordsAgo profile compact now = some <$> unitsAgo profile now n unit) ∨
    Outside (wordsAmount compact) ∧ Refused (wordsAgo profile compact now) := by
  unfold wordsAmount wordsAgo
  split
  · next text word _ =>
    rcases number_eq text with ⟨n, writes, range, eq⟩ | ⟨outside, message, eq⟩
    · rw [eq, writes]
      cases wordUnit word with
      | none => exact Or.inr ⟨(fun n unit h => nomatch h), Or.inl rfl⟩
      | some unit => exact Or.inl ⟨n, unit, rfl, range, rfl⟩
    · rw [eq]
      refine Or.inr ⟨fun n unit h => outside n ?_, Or.inr ⟨message, rfl⟩⟩
      obtain ⟨n', writes, rest⟩ := Option.bind_eq_some_iff.1 h
      obtain ⟨unit', -, eq⟩ := Option.bind_eq_some_iff.1 rest
      cases eq
      exact writes
  · exact Or.inr ⟨(fun n unit h => nomatch h), Or.inl rfl⟩

theorem compactAgo_cases (profile : Profile) (now : Instant) {compact : List Char} (h : EndsInByte compact) :
    (∃ n unit, agoAmount compact = some (n, unit) ∧ InI64 n ∧
      compactAgo profile compact now = some <$> unitsAgo profile now n unit) ∨
    Outside (agoAmount compact) ∧ Refused (compactAgo profile compact now) := by
  unfold compactAgo agoAmount
  rcases parseDurationAgo_cases profile now h with
    ⟨n, unit, amount, range, eq⟩ | ⟨outside, message, eq⟩
  · refine Or.inl ⟨n, unit, by rw [amount]; rfl, range, ?_⟩
    rw [eq]
    rcases unitsAgo_cases profile now n unit with ⟨dt, eq⟩ | eq
    · rw [eq]
      rfl
    · rw [eq]
      rfl
  · rw [eq]
    cases amount : durationAmount compact with
    | some read =>
      -- A compact duration is one word, so no words are read.
      rw [amount] at outside
      refine Or.inr ⟨outside, Or.inl ?_⟩
      unfold wordsAgo
      rw [splitWhitespace_of_duration amount]
    | none => exact wordsAgo_cases profile compact now

theorem representable_inI64 (h : Representable (ago now n unit)) : InI64 n := by
  obtain ⟨low, high⟩ := h
  obtain ⟨nowLow, nowHigh⟩ := now.2
  unfold ago at low high
  have range : InI64 (n * unit.seconds) := ⟨by omega, by omega⟩
  exact inI64_of_mul (List.prod_pos fun _ => pos_of_mem_factors) range

theorem exact_of_outside (outside : Outside amount) (refused : refuses) :
    Exact now amount accepts refuses := by
  unfold Exact
  split
  · next n unit =>
    split
    · next h => exact absurd (representable_inI64 h) (outside n unit rfl)
    · exact refused
  · exact refused

theorem tame_of_outside (outside : Outside amount) : Tame now amount :=
  fun n unit eq range => absurd range (outside n unit eq)

/-- An amount with an `i64` was read, so the code does not refuse: it is exact only for a
representable time. -/
theorem exact_iff_tame (range : InI64 n) (exact : ∀ h, accepts ⟨ago now n unit, h⟩)
    (reads : ¬refuses) :
    Exact now (some (n, unit)) accepts refuses ↔ Tame now (some (n, unit)) := by
  constructor
  · intro holds n' unit' eq _
    cases eq
    by_contra h
    exact reads (by simpa only [Exact, h, dif_neg, not_false_eq_true] using holds)
  · intro tame
    have h := tame n unit rfl range
    simpa only [Exact, h, dif_pos] using exact h

theorem not_exact_of_panic (rejects : ∀ dt, ¬accepts dt) (reads : ¬refuses) :
    ¬Exact now amount accepts refuses := by
  unfold Exact
  split
  · split
    · exact rejects _
    · exact reads
  · exact reads

/-- The condition on the text before ` ago`. -/
def Readable (now : Instant) (compact : List Char) : Prop :=
  EndsInByte compact ∧ Tame now (agoAmount compact)

/-- What `parse_duration_ago` is for. -/
def ExactDuration (now : Instant) (input : List Char) (r : Outcome Instant) : Prop :=
  Exact now (durationAmount input) (fun dt => r = .ok dt) (∃ message, r = .error (.error message))

/-- What `parse_relative_ago` is for; it also refuses by returning no time. -/
def ExactRelative (now : Instant) (input : List Char) (r : Outcome (Option Instant)) : Prop :=
  Exact now ((agoText input).bind agoAmount) (fun dt => r = .ok (some dt)) (Refused r)

/-- What `parse_restore_time` is for. An absolute time is a value or an error. -/
def ExactRestore (absolute : Absolute) (now : Instant) (input : List Char)
    (r : Outcome Instant) : Prop :=
  if absolute.reads input then r ≠ .error .panicked
  else if input = "now".toList then r = .ok now
  else Exact now ((agoText input).bind agoAmount) (fun dt => r = .ok dt)
    (∃ message, r = .error (.error message))

theorem parseDurationAgo_exact_iff (profile : Profile) (input : List Char) (now : Instant) :
    ExactDuration now input (parseDurationAgo profile input now) ↔
      EndsInByte input ∧ Tame now (durationAmount input) := by
  unfold ExactDuration
  by_cases ends : EndsInByte input
  · simp only [ends, true_and]
    rcases parseDurationAgo_cases profile now ends with
      ⟨n, unit, amount, range, eq⟩ | ⟨outside, refused⟩
    · rw [amount, eq]
      exact exact_iff_tame range (fun h => unitsAgo_exact h) fun ⟨message, error⟩ =>
        unitsAgo_no_error n unit message error
    · exact iff_of_true (exact_of_outside outside refused) (tame_of_outside outside)
  · simp only [ends, false_and, iff_false, parseDurationAgo_panics ends]
    exact not_exact_of_panic (fun _ => nofun) fun ⟨_, error⟩ => nomatch error

theorem exact_compactAgo_iff (profile : Profile) {compact : List Char}
    (accepts_iff : ∀ dt, accepts dt ↔ compactAgo profile compact now = .ok (some dt))
    (refuses_iff : refuses ↔ Refused (compactAgo profile compact now)) :
    Exact now (agoAmount compact) accepts refuses ↔ Readable now compact := by
  unfold Readable
  by_cases ends : EndsInByte compact
  · simp only [ends, true_and]
    rcases compactAgo_cases profile now ends with
      ⟨n, unit, amount, range, eq⟩ | ⟨outside, refused⟩
    · rw [amount]
      refine exact_iff_tame range (fun h => ?_) fun refuse => ?_
      · rw [accepts_iff, eq, unitsAgo_exact h]
        rfl
      · rw [refuses_iff, eq] at refuse
        exact not_refused_unitsAgo refuse
    · exact iff_of_true (exact_of_outside outside (refuses_iff.2 refused))
        (tame_of_outside outside)
  · have panics : compactAgo profile compact now = .error .panicked := by
      unfold compactAgo
      rw [parseDurationAgo_panics ends]
    rw [panics] at accepts_iff refuses_iff
    simp only [ends, false_and, iff_false]
    exact not_exact_of_panic (fun dt accept => nomatch (accepts_iff dt).1 accept) fun refuse =>
      not_refused_panicked (refuses_iff.1 refuse)

theorem parseRelativeAgo_exact_iff (profile : Profile) (input : List Char) (now : Instant) :
    ExactRelative now input (parseRelativeAgo profile input now) ↔
      ∀ compact, agoText input = some compact → Readable now compact := by
  unfold ExactRelative parseRelativeAgo
  cases agoText input with
  | none => exact iff_of_true (Or.inl rfl) nofun
  | some compact =>
    simp only [Option.bind_some, Option.some.injEq, forall_eq']
    exact exact_compactAgo_iff profile (fun _ => Iff.rfl) Iff.rfl

theorem parseRestoreTime_exact_iff (profile : Profile) (absolute : Absolute)
    (input : List Char) (now : Instant) :
    ExactRestore absolute now input (parseRestoreTime profile absolute input now) ↔
      absolute.reads input ∨ input = "now".toList ∨
        ∀ compact, agoText input = some compact → Readable now compact := by
  unfold ExactRestore
  by_cases reads : absolute.reads input
  · simp only [reads, if_true, true_or, iff_true]
    unfold parseRestoreTime
    split
    · rintro ⟨⟩
    · unfold localDatetime
      split <;> rintro ⟨⟩
    · unfold localDatetime
      split <;> rintro ⟨⟩
    · next rfc dateTime date => simp [Absolute.reads, rfc, dateTime, date] at reads
  have unread := reads
  simp only [Absolute.reads, Bool.or_eq_true, not_or, Bool.not_eq_true, Option.isSome_eq_false_iff,
    Option.isNone_iff_eq_none] at unread
  rw [if_neg reads, parseRestoreTime, unread.1.1, unread.1.2, unread.2]
  dsimp only
  by_cases same : input = "now".toList
  · simp only [same, if_true, true_or, or_true]
  simp only [reads, same, if_false, false_or, Bool.false_eq_true]
  unfold parseRelativeAgo
  cases agoText input with
  | none => exact iff_of_true ⟨_, rfl⟩ (by simp)
  | some compact =>
    simp only [Option.bind_some, Option.some.injEq, forall_eq']
    refine exact_compactAgo_iff profile (fun dt => ?_) ?_
    · rcases compactAgo profile compact now with _ | _ | _ <;> simp
    · rcases compactAgo profile compact now with _ | _ | _ <;> simp [Refused]

/-- The three functions are exact just when the text cut before its last byte ends in a one-byte
character and the time of every amount read as an `i64` is representable. -/
theorem parseTimes_exact_iff (profile : Profile) (absolute : Absolute) (input : List Char)
    (now : Instant) :
    (ExactDuration now input (parseDurationAgo profile input now) ↔
      EndsInByte input ∧ Tame now (durationAmount input)) ∧
    (ExactRelative now input (parseRelativeAgo profile input now) ↔
      ∀ compact, agoText input = some compact → Readable now compact) ∧
    (ExactRestore absolute now input (parseRestoreTime profile absolute input now) ↔
      absolute.reads input ∨ input = "now".toList ∨
        ∀ compact, agoText input = some compact → Readable now compact) :=
  ⟨parseDurationAgo_exact_iff profile input now, parseRelativeAgo_exact_iff profile input now,
    parseRestoreTime_exact_iff profile absolute input now⟩

/-- A day sign panics; in a release build 213503982334602 days are 61184 seconds. -/
theorem parseTimes_panic_and_wrap :
    let now : Instant := ⟨0, by decide⟩
    let absolute : Absolute := ⟨fun _ => none, fun _ => none, fun _ => none⟩
    parseRestoreTime .release absolute "5日 ago".toList now = .error .panicked ∧
      parseRestoreTime .debug absolute "213503982334602 days ago".toList now =
        .error .panicked ∧
      parseRestoreTime .release absolute "213503982334602 days ago".toList now =
        .ok ⟨-61184000000000, by decide⟩ ∧
      ¬ExactRestore absolute now "213503982334602 days ago".toList
        (parseRestoreTime .release absolute "213503982334602 days ago".toList now) := by
  have wraps : parseRestoreTime .release ⟨fun _ => none, fun _ => none, fun _ => none⟩
      "213503982334602 days ago".toList ⟨0, by decide⟩ = .ok ⟨-61184000000000, by decide⟩ := by
    decide +kernel
  refine ⟨by decide +kernel, by decide +kernel, wraps, ?_⟩
  have amount : (agoText "213503982334602 days ago".toList).bind agoAmount =
      some (213503982334602, .day) := by decide +kernel
  intro exact
  rw [wraps, ExactRestore, if_neg (by decide), if_neg (by decide), amount, Exact,
    dif_neg (by decide)] at exact
  exact nomatch exact

end RelativeTime
