import ProtoGpu.Common.Json
import Mathlib.Tactic.IntervalCases
import Mathlib.Tactic.NormNum

/-!
# Printed doubles, read back

A stream prints a double as a decimal of at most six digits, whatever form `%g` picks for it, and
the scanner of `json::parse` reads that decimal and nothing after it. So what comes back is the
double rounded to six significant digits; an integer below `2 ^ 53` comes back when it has no more.
-/

namespace ProtoGpu

open Rounding

/-! ### Rows of digits -/

def AllDigits (digits : Text) : Prop := ∀ ch ∈ digits, Json.isDigit ch = true

theorem allDigits_append {a b : Text} : AllDigits (a ++ b) ↔ AllDigits a ∧ AllDigits b := by
  simp [AllDigits, or_imp, forall_and]

theorem digitsValue_append (a b : Text) :
    digitsValue (a ++ b) = digitsValue a * 10 ^ b.length + digitsValue b := by
  have hfoldl : ∀ (b : Text) (n : Nat), b.foldl (fun n c => n * 10 + digitValue c) n
      = n * 10 ^ b.length + digitsValue b := by
    intro b
    induction b with
    | nil => intro n; simp [digitsValue]
    | cons c b ih =>
        intro n
        have hcons : digitsValue (c :: b)
            = (0 * 10 + digitValue c) * 10 ^ b.length + digitsValue b := ih _
        rw [List.foldl_cons, ih, hcons, List.length_cons, pow_succ]
        ring
  rw [digitsValue, List.foldl_append, hfoldl]
  rfl

theorem digitsValue_singleton (ch : Char) : digitsValue [ch] = digitValue ch := by
  simp [digitsValue]

theorem digitChar_spec {d : Nat} (hd : d < 10) :
    Json.isDigit (Nat.digitChar d) = true ∧ digitValue (Nat.digitChar d) = d
      ∧ (Nat.digitChar d = '0' ↔ d = 0) := by
  interval_cases d <;> decide

theorem length_decimalDigits (k m : Nat) : (decimalDigits k m).length = k := by
  induction k generalizing m with
  | zero => rfl
  | succ k ih => rw [decimalDigits, List.length_append, ih, List.length_singleton]

theorem allDigits_decimalDigits (k m : Nat) : AllDigits (decimalDigits k m) := by
  induction k generalizing m with
  | zero => simp [AllDigits, decimalDigits]
  | succ k ih =>
      rw [decimalDigits, allDigits_append]
      refine ⟨ih _, ?_⟩
      simp [AllDigits, (digitChar_spec (Nat.mod_lt m (show 0 < 10 by decide))).1]

theorem digitsValue_decimalDigits (k m : Nat) : digitsValue (decimalDigits k m) = m % 10 ^ k := by
  induction k generalizing m with
  | zero => simp [decimalDigits, digitsValue, Nat.mod_one]
  | succ k ih =>
      rw [decimalDigits, digitsValue_append, ih, digitsValue_singleton,
        (digitChar_spec (Nat.mod_lt m (show 0 < 10 by decide))).2.1, List.length_singleton, pow_one,
        pow_succ, mul_comm (10 ^ k) 10, Nat.mod_mul]
      ring

/-- The first of `k + 1` digits, when there are so many. -/
theorem head_decimalDigits {k m : Nat} (hm : 10 ^ k ≤ m) :
    ∃ ch digits, decimalDigits (k + 1) m = ch :: digits ∧ (m < 10 ^ (k + 1) → ch ≠ '0') := by
  induction k generalizing m with
  | zero =>
      refine ⟨_, [], rfl, fun hlt hzero => ?_⟩
      have hmod := ((digitChar_spec (Nat.mod_lt m (show 0 < 10 by decide))).2.2).mp hzero
      rw [pow_zero] at hm
      omega
  | succ k ih =>
      have hle : 10 ^ k ≤ m / 10 := by
        rw [Nat.le_div_iff_mul_le (by decide), ← pow_succ]
        exact hm
      obtain ⟨ch, digits, hdigits, hch⟩ := ih hle
      rw [decimalDigits, hdigits]
      refine ⟨ch, _, rfl, fun hlt => hch ?_⟩
      rw [Nat.div_lt_iff_lt_mul (by decide), ← pow_succ]
      exact hlt

theorem digitsValue_replicate_zero (k : Nat) : digitsValue (List.replicate k '0') = 0 := by
  induction k with
  | zero => rfl
  | succ k ih =>
      rw [List.replicate_succ', digitsValue_append, ih, digitsValue_singleton]
      rfl

/-- Zeros dropped at the end of a fraction are a power of ten less. -/
theorem digitsValue_rdropWhile (frac : Text) :
    ∃ k, frac.length = (frac.rdropWhile (· == '0')).length + k
      ∧ digitsValue frac = digitsValue (frac.rdropWhile (· == '0')) * 10 ^ k := by
  induction frac using List.reverseRecOn with
  | nil => exact ⟨0, rfl, by simp [digitsValue]⟩
  | append_singleton frac ch ih =>
      by_cases hch : (ch == '0') = true
      · rw [List.rdropWhile_concat_pos (fun x => x == '0') frac ch hch]
        obtain ⟨k, hlength, hvalue⟩ := ih
        refine ⟨k + 1, by simp [hlength, add_assoc], ?_⟩
        rw [digitsValue_append, digitsValue_singleton, hvalue, beq_iff_eq.mp hch,
          List.length_singleton, pow_succ]
        simp [digitValue]
        ring
      · rw [List.rdropWhile_concat_neg (fun x => x == '0') frac ch hch]
        exact ⟨0, rfl, by simp⟩

/-! ### Decimals and their text -/

def Decimal.text (d : Decimal) : Text :=
  (if d.neg then ['-'] else []) ++ d.int ++ (if d.frac = [] then [] else '.' :: d.frac)
    ++ (if d.exp = [] then [] else 'e' :: (if d.expNeg then '-' else '+') :: d.exp)

/-- A number as the JSON grammar has it. -/
structure Decimal.Valid (d : Decimal) : Prop where
  int : AllDigits d.int
  frac : AllDigits d.frac
  exp : AllDigits d.exp
  leading : d.int = ['0'] ∨ ∃ ch digits, d.int = ch :: digits ∧ ch ≠ '0'

/-- A number cannot go on with this text. -/
def EndsNumber (rest : Text) : Prop :=
  ∀ ch, rest.head? = some ch → Json.isDigit ch = false ∧ ch ≠ '.' ∧ ch ≠ 'e' ∧ ch ≠ 'E'

namespace Json

theorem scanDigitsFrom_append {digits rest : Text} (hdigits : AllDigits digits) (i : Nat)
    (hrest : ∀ ch, rest.head? = some ch → isDigit ch = false) :
    ∃ j, scanDigitsFrom (digits ++ rest) i = (digits, { rest := rest, i := j }) := by
  induction digits generalizing i with
  | nil =>
      refine ⟨i, ?_⟩
      cases rest with
      | nil => rfl
      | cons ch rest =>
          rw [List.nil_append, scanDigitsFrom, if_neg]
          rw [hrest ch rfl]
          decide
  | cons ch digits ih =>
      obtain ⟨j, hj⟩ := ih (fun c hc => hdigits c (by simp [hc])) (i + 1)
      refine ⟨j, ?_⟩
      rw [List.cons_append, scanDigitsFrom, if_pos (hdigits ch (by simp)), hj]

theorem consume_cons (ch : Char) (rest : Text) (i : Nat) :
    consume { rest := ch :: rest, i := i } ch = some { rest := rest, i := i + 1 } := by
  simp [consume, Cursor.peek, Cursor.next]

theorem peek_ne_of_digit {ch ch' : Char} (hch : isDigit ch = true) (hch' : isDigit ch' = false) :
    ch ≠ ch' := by
  rintro rfl
  rw [hch] at hch'
  cases hch'

/-- The fraction of a number, and where it stops. -/
theorem parseFraction_text {frac rest : Text} (hfrac : AllDigits frac) (i : Nat)
    (hrest : ∀ ch, rest.head? = some ch → isDigit ch = false ∧ ch ≠ '.') :
    ∃ j, parseFraction { rest := (if frac = [] then [] else '.' :: frac) ++ rest, i := i }
      = .ok (frac, { rest := rest, i := j }) := by
  cases frac with
  | nil =>
      refine ⟨i, ?_⟩
      have hnone : consume { rest := rest, i := i } '.' = none := by
        unfold consume Cursor.peek
        rw [if_neg]
        cases rest with
        | nil => simp
        | cons ch rest => simpa using (hrest ch rfl).2
      rw [if_pos rfl, List.nil_append, parseFraction, hnone]
  | cons ch digits =>
      rw [if_neg (by simp), List.cons_append, parseFraction, consume_cons]
      obtain ⟨j, hj⟩ := scanDigitsFrom_append hfrac (i + 1) fun c hc => (hrest c hc).1
      refine ⟨j, ?_⟩
      have hdigit : isDigit (Cursor.peek { rest := ch :: digits ++ rest, i := i + 1 }) = true :=
        hfrac ch (by simp)
      dsimp only
      rw [if_pos hdigit, scanDigits, hj]

/-- The exponent of a number, and where it stops. -/
theorem parseExponent_text {exp rest : Text} (expNeg : Bool) (hexp : AllDigits exp) (i : Nat)
    (hrest : ∀ ch, rest.head? = some ch → isDigit ch = false ∧ ch ≠ 'e' ∧ ch ≠ 'E')
    (hsign : exp = [] → expNeg = false) :
    ∃ j, parseExponent
        { rest := (if exp = [] then [] else 'e' :: (if expNeg then '-' else '+') :: exp) ++ rest
          i := i }
      = .ok ((expNeg, exp), { rest := rest, i := j }) := by
  cases exp with
  | nil =>
      refine ⟨i, ?_⟩
      have hpeek : (rest.headD '\x00' == 'e' || rest.headD '\x00' == 'E') = false := by
        cases rest with
        | nil => decide
        | cons ch rest => simpa using (hrest ch rfl).2
      rw [if_pos rfl, List.nil_append, parseExponent, Cursor.peek, hpeek, hsign rfl]
      rfl
  | cons ch digits =>
      obtain ⟨j, hj⟩ := scanDigitsFrom_append hexp (i + 2) fun c hc => (hrest c hc).1
      refine ⟨j, ?_⟩
      have hdigit := hexp ch (by simp)
      rw [List.cons_append] at hj
      cases expNeg with
      | true =>
          simp only [reduceCtorEq, if_false, if_true, List.cons_append, parseExponent, Cursor.peek,
            Cursor.next, List.headD_cons, List.tail_cons, beq_self_eq_true, Bool.true_or,
            Bool.or_true, hdigit, scanDigits, hj]
      | false =>
          have hplus : ('+' == '-') = false := by decide
          simp only [reduceCtorEq, if_false, List.cons_append, parseExponent, Cursor.peek,
            Cursor.next, List.headD_cons, List.tail_cons, Bool.false_eq_true, beq_self_eq_true,
            Bool.true_or, if_true, hdigit, scanDigits, hj, hplus]

theorem exponentText_head {exp rest : Text} (hrest : EndsNumber rest) (expNeg : Bool) (ch : Char)
    (hch : ((if exp = [] then [] else 'e' :: (if expNeg then '-' else '+') :: exp)
      ++ rest).head? = some ch) : isDigit ch = false ∧ ch ≠ '.' := by
  split at hch
  · exact ⟨(hrest ch hch).1, (hrest ch hch).2.1⟩
  · obtain rfl : 'e' = ch := Option.some.inj hch
    decide

theorem fractionText_head {frac rest : Text}
    (hrest : ∀ ch, rest.head? = some ch → isDigit ch = false) (ch : Char)
    (hch : ((if frac = [] then [] else '.' :: frac) ++ rest).head? = some ch) :
    isDigit ch = false := by
  split at hch
  · exact hrest ch hch
  · obtain rfl : '.' = ch := Option.some.inj hch
    decide

/-- The digits before the point: a lone zero, or a row that does not begin with one. -/
theorem scanInt_text {int rest : Text} (hint : AllDigits int)
    (hleading : int = ['0'] ∨ ∃ ch digits, int = ch :: digits ∧ ch ≠ '0') (i : Nat)
    (hrest : ∀ ch, rest.head? = some ch → isDigit ch = false) :
    isDigit (Cursor.peek { rest := int ++ rest, i := i }) = true ∧ ∃ j,
      (if Cursor.peek { rest := int ++ rest, i := i } == '0'
        then (['0'], Cursor.next { rest := int ++ rest, i := i })
        else scanDigits { rest := int ++ rest, i := i }) = (int, { rest := rest, i := j }) := by
  rcases hleading with rfl | ⟨ch, digits, rfl, hch⟩
  · exact ⟨rfl, i + 1, rfl⟩
  · refine ⟨hint ch (by simp), ?_⟩
    obtain ⟨j, hj⟩ := scanDigitsFrom_append hint i hrest
    refine ⟨j, ?_⟩
    have hpeek : (Cursor.peek { rest := ch :: digits ++ rest, i := i } == '0') = false := by
      simpa [Cursor.peek] using hch
    rw [hpeek, scanDigits, hj]
    rfl

/-- **Scanned numbers**: the scanner reads a printed decimal, and nothing after it. -/
theorem parseNumber_text {d : Decimal} (hd : d.Valid) {rest : Text} (hrest : EndsNumber rest)
    (i : Nat) (hsign : d.exp = [] → d.expNeg = false) :
    ∃ j, parseNumber { rest := d.text ++ rest, i := i }
      = .ok (strtod d, { rest := rest, i := j }) := by
  obtain ⟨neg, int, frac, expNeg, exp⟩ := d
  obtain ⟨hint, hfrac, hexp, hleading⟩ := hd
  dsimp only at hint hfrac hexp hleading hsign
  -- what follows each part
  have hexpHead := fun ch => @exponentText_head exp _ hrest expNeg ch
  have hfracHead := @fractionText_head frac _ fun ch hch => (hexpHead ch hch).1
  simp only [Decimal.text, List.append_assoc]
  generalize hexpText : ((if exp = [] then [] else 'e' :: (if expNeg then '-' else '+') :: exp)
    ++ rest) = expText at hexpHead hfracHead
  generalize hfracText : ((if frac = [] then [] else '.' :: frac) ++ expText) = fracText
    at hfracHead
  have hscan : ∀ i₁, ∃ j, (if isDigit (Cursor.peek { rest := int ++ fracText, i := i₁ }) then
      (let r := if Cursor.peek { rest := int ++ fracText, i := i₁ } == '0'
        then (['0'], Cursor.next { rest := int ++ fracText, i := i₁ })
        else scanDigits { rest := int ++ fracText, i := i₁ }
      parseFraction r.2 >>= fun f => parseExponent f.2 >>= fun e => Except.ok
        (strtod { neg := neg, int := r.1, frac := f.1, expNeg := e.1.1, exp := e.1.2 }, e.2))
      else fail { rest := int ++ fracText, i := i₁ } "invalid number")
        = .ok (strtod ⟨neg, int, frac, expNeg, exp⟩, { rest := rest, i := j }) := by
    intro i₁
    obtain ⟨hdigit, j₁, hj₁⟩ := scanInt_text hint hleading i₁ hfracHead
    obtain ⟨j₂, hj₂⟩ := parseFraction_text hfrac j₁ hexpHead
    obtain ⟨j₃, hj₃⟩ := parseExponent_text expNeg hexp j₂
      (fun ch hch => ⟨(hrest ch hch).1, (hrest ch hch).2.2⟩) hsign
    rw [hfracText] at hj₂
    rw [hexpText] at hj₃
    refine ⟨j₃, ?_⟩
    rw [if_pos hdigit, hj₁]
    dsimp only
    rw [hj₂]
    change (parseExponent _ >>= _) = _
    rw [hj₃]
    rfl
  unfold parseNumber
  cases neg with
  | true =>
      obtain ⟨j, hj⟩ := hscan (i + 1)
      exact ⟨j, hj⟩
  | false =>
      obtain ⟨j, hj⟩ := hscan i
      refine ⟨j, ?_⟩
      have hminus : (Cursor.peek { rest := int ++ fracText, i := i } == '-') = false := by
        have hdigit := (scanInt_text hint hleading i hfracHead).1
        exact beq_eq_false_iff_ne.mpr (peek_ne_of_digit hdigit (by decide))
      simp only [Bool.false_eq_true, if_false, List.nil_append, hminus]
      exact hj

end Json

/-! ### The decimal of a double -/

/-- The decimal that `digitsText` prints. -/
def digitsDecimal (neg : Bool) (m : Nat) (x : Int) : Decimal :=
  let digits := decimalDigits 6 m
  if x < -4 ∨ x ≥ 6 then
    { neg := neg, int := digits.take 1, frac := (digits.drop 1).rdropWhile (· == '0')
      expNeg := x < 0, exp := decimalDigits (if x.natAbs < 100 then 2 else 3) x.natAbs }
  else if x < 0 then
    { neg := neg, int := ['0']
      frac := (List.replicate (-x - 1).toNat '0' ++ digits).rdropWhile (· == '0') }
  else
    { neg := neg, int := digits.take (x.toNat + 1)
      frac := (digits.drop (x.toNat + 1)).rdropWhile (· == '0') }

theorem withFraction_eq (int frac : Text) :
    withFraction int frac = int ++ (if frac.rdropWhile (· == '0') = [] then []
      else '.' :: frac.rdropWhile (· == '0')) := by
  unfold withFraction
  cases frac.rdropWhile (· == '0') with
  | nil => simp
  | cons ch digits => simp

theorem exponentDigits_ne_nil (x : Int) :
    decimalDigits (if x.natAbs < 100 then 2 else 3) x.natAbs ≠ [] := by
  apply List.ne_nil_of_length_pos
  rw [length_decimalDigits]
  split <;> decide

theorem digitsDecimal_text (neg : Bool) (m : Nat) (x : Int) :
    (digitsDecimal neg m x).text = (if neg then ['-'] else []) ++ digitsText m x := by
  have hexp := exponentDigits_ne_nil x
  unfold digitsDecimal digitsText
  dsimp only
  split
  · simp only [Decimal.text, withFraction_eq, if_neg hexp, exponentText, decide_eq_true_eq,
      List.append_assoc]
  · split
    all_goals simp only [Decimal.text, withFraction_eq, if_true, List.append_nil, List.append_assoc]

/-- Dropping zeros at the end of a fraction keeps the value. -/
theorem digitsValue_strip (int frac : Text) (e : Int) :
    (digitsValue (int ++ frac.rdropWhile (· == '0')) : ℚ)
        * 10 ^ (e - (frac.rdropWhile (· == '0')).length)
      = digitsValue (int ++ frac) * 10 ^ (e - frac.length) := by
  obtain ⟨k, hlength, hvalue⟩ := digitsValue_rdropWhile frac
  rw [digitsValue_append int frac, digitsValue_append, hvalue, hlength]
  generalize frac.rdropWhile (· == '0') = kept
  have hsplit : (10 : ℚ) ^ (e - kept.length)
      = 10 ^ (k : ℤ) * 10 ^ (e - ((kept.length + k : ℕ) : ℤ)) := by
    rw [← zpow_add₀ (by norm_num)]
    congr 1
    push_cast
    ring
  rw [hsplit, zpow_natCast]
  push_cast
  ring

theorem allDigits_of_prefix {a b : Text} (h : a <+: b) (hb : AllDigits b) : AllDigits a := by
  obtain ⟨t, rfl⟩ := h
  exact (allDigits_append.mp hb).1

section Digits

variable {m : Nat} {x : Int}

theorem digitsDecimal_valid (neg : Bool) (hm : 10 ^ 5 ≤ m) (hm' : m < 10 ^ 6) :
    (digitsDecimal neg m x).Valid := by
  obtain ⟨ch, digits, hdigits, hch⟩ := head_decimalDigits hm
  have hall := allDigits_decimalDigits 6 m
  have htake : ∀ k, AllDigits ((decimalDigits 6 m).take k) :=
    fun k => allDigits_of_prefix (List.take_prefix _ _) hall
  have hdrop : ∀ k, AllDigits ((decimalDigits 6 m).drop k) :=
    fun k ch hch => hall ch (List.mem_of_mem_drop hch)
  have hstrip : ∀ {frac : Text}, AllDigits frac → AllDigits (frac.rdropWhile (· == '0')) :=
    fun h => allDigits_of_prefix (List.rdropWhile_prefix _ _) h
  have hleading : ∀ k, ∃ ch digits, (decimalDigits 6 m).take (k + 1) = ch :: digits ∧ ch ≠ '0' := by
    intro k
    rw [hdigits]
    exact ⟨ch, _, rfl, hch hm'⟩
  unfold digitsDecimal
  dsimp only
  split
  · exact ⟨htake 1, hstrip (hdrop 1), allDigits_decimalDigits _ _, .inr (hleading 0)⟩
  · split
    · refine ⟨by simp [AllDigits, Json.isDigit], hstrip (allDigits_append.mpr ⟨?_, hall⟩),
        by simp [AllDigits], .inl rfl⟩
      intro ch hch
      obtain rfl := List.eq_of_mem_replicate hch
      decide
    · exact ⟨htake _, hstrip (hdrop _), by simp [AllDigits], .inr (hleading _)⟩

/-- The six digits with the point after the first, times `10 ^ x`. -/
theorem digitsDecimal_value (neg : Bool) (hm : m < 10 ^ 6) (hx : x.natAbs < 1000) :
    (digitsDecimal neg m x).value = m * (10 : ℚ) ^ (x - 5) := by
  have hdigits : digitsValue (decimalDigits 6 m) = m := by
    rw [digitsValue_decimalDigits, Nat.mod_eq_of_lt hm]
  have hlength := length_decimalDigits 6 m
  unfold digitsDecimal Decimal.value
  dsimp only
  split
  next hsci =>
    have hexp : digitsValue (decimalDigits (if x.natAbs < 100 then 2 else 3) x.natAbs)
        = x.natAbs := by
      rw [digitsValue_decimalDigits]
      split <;> exact Nat.mod_eq_of_lt (by omega)
    have hsign :
        (if decide (x < 0) = true then -((x.natAbs : ℕ) : Int) else (x.natAbs : ℕ)) = x := by
      simp only [decide_eq_true_eq]
      split <;> omega
    dsimp only
    rw [hexp, hsign, digitsValue_strip, List.take_append_drop, hdigits, List.length_drop, hlength]
    rfl
  next hsci =>
    split
    next hneg =>
      have hzeros : digitsValue (['0'] ++ (List.replicate (-x - 1).toNat '0' ++ decimalDigits 6 m))
          = m := by
        rw [digitsValue_append, digitsValue_append, digitsValue_replicate_zero, hdigits]
        simp [digitsValue, digitValue]
      have hexp : digitsValue ([] : Text) = 0 := rfl
      dsimp only
      simp only [Bool.false_eq_true, if_false, hexp]
      rw [digitsValue_strip, hzeros, List.length_append, List.length_replicate, hlength]
      congr 2
      omega
    next hpos =>
      have hexp : digitsValue ([] : Text) = 0 := rfl
      dsimp only
      simp only [Bool.false_eq_true, if_false, hexp]
      rw [digitsValue_strip, List.take_append_drop, hdigits, List.length_drop, hlength]
      congr 2
      omega

end Digits

/-- The decimal printed for a magnitude. -/
def magDecimal (neg : Bool) (mag : ℚ) : Decimal :=
  if mag = 0 then { neg := neg, int := ['0'] }
  else
    let m := (significand 10 6 mag).toNat
    let e := unitExp 10 6 mag
    if m = 1000000 then digitsDecimal neg 100000 (e + 6) else digitsDecimal neg m (e + 5)

theorem magDecimal_text (neg : Bool) (mag : ℚ) :
    (magDecimal neg mag).text = (Double.finite neg mag).text := by
  unfold magDecimal Double.text magText
  by_cases hzero : mag = 0
  · simp [hzero, Decimal.text]
  · simp only [if_neg hzero]
    split <;> exact digitsDecimal_text _ _ _

theorem digitsDecimal_sign (neg : Bool) (m : Nat) (x : Int) :
    (digitsDecimal neg m x).neg = neg
      ∧ ((digitsDecimal neg m x).exp = [] → (digitsDecimal neg m x).expNeg = false) := by
  unfold digitsDecimal
  dsimp only
  split
  · exact ⟨rfl, fun hexp => absurd hexp (exponentDigits_ne_nil x)⟩
  · split <;> exact ⟨rfl, fun _ => rfl⟩

theorem magDecimal_sign (neg : Bool) (mag : ℚ) :
    (magDecimal neg mag).neg = neg
      ∧ ((magDecimal neg mag).exp = [] → (magDecimal neg mag).expNeg = false) := by
  unfold magDecimal
  dsimp only
  split
  · exact ⟨rfl, fun _ => rfl⟩
  · split <;> exact digitsDecimal_sign _ _ _

theorem magDecimal_spec (neg : Bool) {mag : ℚ} (hmag : 0 ≤ mag)
    (hexp : (unitExp 10 6 mag).natAbs < 900) :
    (magDecimal neg mag).Valid ∧ (magDecimal neg mag).value = toDigits 10 6 mag := by
  rcases hmag.eq_or_lt with rfl | hpos
  · have hzero : magDecimal neg 0 = { neg := neg, int := ['0'] } := if_pos rfl
    rw [hzero]
    refine ⟨⟨by simp [AllDigits, Json.isDigit], by simp [AllDigits], by simp [AllDigits],
      .inl rfl⟩, ?_⟩
    simp [Decimal.value, digitsValue, digitValue, toDigits, toUnit,
      show halfEven 0 = 0 from halfEven_intCast 0]
  · obtain ⟨hlow, hhigh⟩ := significand_bounds (b := 10) (p := 6) (by decide) (by decide) hpos
    obtain ⟨m, hm⟩ := Int.eq_ofNat_of_zero_le (le_trans (by norm_num) hlow)
    rw [hm] at hlow hhigh
    have hlow' : 10 ^ 5 ≤ m := by exact_mod_cast hlow
    have hhigh' : m ≤ 10 ^ 6 := by exact_mod_cast hhigh
    rw [toDigits_eq, hm]
    unfold magDecimal
    rw [if_neg hpos.ne', hm]
    dsimp only [Int.toNat_natCast]
    split
    next hcarry =>
      refine ⟨digitsDecimal_valid neg (by decide) (by decide), ?_⟩
      rw [digitsDecimal_value neg (by decide) (by omega), hcarry]
      have hshift : unitExp 10 6 mag + 6 - 5 = unitExp 10 6 mag + 1 := by ring
      rw [hshift, zpow_add_one₀ (by norm_num)]
      push_cast
      ring
    next hnocarry =>
      have hlt : m < 10 ^ 6 := lt_of_le_of_ne hhigh' hnocarry
      refine ⟨digitsDecimal_valid neg hlow' hlt, ?_⟩
      rw [digitsDecimal_value neg hlt (by omega)]
      have hshift : unitExp 10 6 mag + 5 - 5 = unitExp 10 6 mag := by ring
      rw [hshift]
      push_cast
      rfl

/-- **Printed doubles.** The scanner reads a printed double as the double nearest to its six
significant digits. -/
theorem parseNumber_double (neg : Bool) {mag : ℚ} (hmag : 0 ≤ mag)
    (hexp : (unitExp 10 6 mag).natAbs < 900) {rest : Text} (hrest : EndsNumber rest) (i : Nat) :
    ∃ j, Json.parseNumber { rest := (Double.finite neg mag).text ++ rest, i := i }
      = .ok (Double.round neg (toDigits 10 6 mag), { rest := rest, i := j }) := by
  obtain ⟨hvalid, hvalue⟩ := magDecimal_spec neg hmag hexp
  obtain ⟨hneg, hsign⟩ := magDecimal_sign neg mag
  obtain ⟨j, hj⟩ := Json.parseNumber_text hvalid hrest i hsign
  refine ⟨j, ?_⟩
  rw [← magDecimal_text, hj, strtod, hneg, hvalue]

/-! ### Integers -/

/-- At most six significant decimal digits. -/
def SixDigits (n : Nat) : Prop := ∃ m k, n = m * 10 ^ k ∧ m < 10 ^ 6

theorem sixDigits_of_lt {n : Nat} (hn : n < 10 ^ 6) : SixDigits n := ⟨n, 0, by simp, hn⟩

theorem not_sixDigits {n : Nat} (hn : 10 ^ 6 ≤ n) (hlast : n % 10 ≠ 0) : ¬ SixDigits n := by
  rintro ⟨m, k, rfl, hm⟩
  cases k with
  | zero => omega
  | succ k =>
      rw [pow_succ, ← mul_assoc, Nat.mul_mod_left] at hlast
      exact hlast rfl

theorem toDigits_natCast_iff (n : Nat) : toDigits 10 6 (n : ℚ) = n ↔ SixDigits n := by
  rcases Nat.eq_zero_or_pos n with rfl | hpos
  · refine iff_of_true ?_ (sixDigits_of_lt (by norm_num))
    simp [toDigits, toUnit, show halfEven 0 = 0 from halfEven_intCast 0]
  · have hq : (0 : ℚ) < n := by exact_mod_cast hpos
    rw [toDigits_eq_self_iff (by decide) (by decide) hq]
    constructor
    · rintro ⟨m, k, heq, hm⟩
      rcases le_or_gt 0 k with hk | hk
      · obtain ⟨j, rfl⟩ := Int.eq_ofNat_of_zero_le hk
        have hint : (n : ℤ) = m * 10 ^ j := by
          rw [zpow_natCast] at heq
          exact_mod_cast heq
        have hmpos : 0 ≤ m := by
          by_contra hneg
          have : m * 10 ^ j < 0 := mul_neg_of_neg_of_pos (by omega) (by positivity)
          omega
        obtain ⟨m', rfl⟩ := Int.eq_ofNat_of_zero_le hmpos
        exact ⟨m', j, by exact_mod_cast hint, by exact_mod_cast hm⟩
      · -- a fraction with six digits is less than `10 ^ 6`
        apply sixDigits_of_lt
        have hlt : (n : ℚ) < 10 ^ 6 := by
          calc (n : ℚ) = m * ((10 : ℕ) : ℚ) ^ k := heq
            _ ≤ m * 1 := by
                refine mul_le_mul_of_nonneg_left (zpow_le_one_of_nonpos₀ (by norm_num) hk.le) ?_
                by_contra hneg
                have hle : (m : ℚ) * ((10 : ℕ) : ℚ) ^ k ≤ 0 :=
                  mul_nonpos_of_nonpos_of_nonneg (le_of_not_ge hneg) (zpow_nonneg (by norm_num) k)
                rw [← heq] at hle
                linarith
            _ < 10 ^ 6 := by
                rw [mul_one]
                exact_mod_cast hm
        exact_mod_cast hlt
    · rintro ⟨m, k, heq, hm⟩
      refine ⟨m, k, ?_, by exact_mod_cast hm⟩
      rw [zpow_natCast]
      exact_mod_cast heq

theorem unitExp_natCast {n : Nat} (hn : n < 2 ^ 53) :
    -5 ≤ unitExp 10 6 (n : ℚ) ∧ unitExp 10 6 (n : ℚ) ≤ 10 := by
  have hlog : Nat.log 10 n < 16 := Nat.log_lt_of_lt_pow' (by decide) (by omega)
  rw [unitExp, Int.log_natCast]
  push_cast
  omega

/-- A double holds the magnitude. -/
theorem round_exact {neg : Bool} {q : ℚ} {m k : ℤ} (hq : 0 < q) (heq : q = m * ((2 : ℕ) : ℚ) ^ k)
    (hm : m < 2 ^ 53) (hk : -1074 ≤ k) (hlt : q < 2 ^ 1024) :
    Double.round neg q = .finite neg q := by
  have hunit : max (unitExp 2 53 q) (-1074) ≤ k :=
    max_le (unitExp_le (by decide) hq heq (by exact_mod_cast hm)) hk
  have hexact := toUnit_exact (by decide) heq hunit
  unfold Double.round
  dsimp only
  rw [hexact, if_pos hlt]

theorem round_zero (neg : Bool) : Double.round neg 0 = .finite neg 0 := by
  have hzero : toUnit 2 (max (unitExp 2 53 0) (-1074)) 0 = 0 := by
    simp [toUnit, show halfEven 0 = 0 from halfEven_intCast 0]
  unfold Double.round
  dsimp only
  rw [hzero, if_pos (by norm_num)]

theorem ofInt_eq {n : Int} (hn : n.natAbs < 2 ^ 53) :
    Double.ofInt n = .finite (n < 0) n.natAbs := by
  unfold Double.ofInt
  rcases Nat.eq_zero_or_pos n.natAbs with hzero | hpos
  · rw [hzero, Nat.cast_zero, round_zero]
  · refine round_exact (m := n.natAbs) (k := 0) (by exact_mod_cast hpos) (by simp)
      (by exact_mod_cast hn) (by decide) ?_
    calc (n.natAbs : ℚ) < 2 ^ 53 := by exact_mod_cast hn
      _ < 2 ^ 1024 := pow_lt_pow_right₀ (by norm_num) (by norm_num)

/-- Six digits of such an integer are again an integer that a double holds. -/
theorem round_toDigits (neg : Bool) {n : Nat} (hn : n < 2 ^ 53) :
    Double.round neg (toDigits 10 6 (n : ℚ)) = .finite neg (toDigits 10 6 (n : ℚ)) := by
  rcases Nat.eq_zero_or_pos n with rfl | hpos
  · rw [(toDigits_natCast_iff 0).mpr (sixDigits_of_lt (by norm_num)), Nat.cast_zero, round_zero]
  have hq : (0 : ℚ) < n := by exact_mod_cast hpos
  by_cases hsix : n < 10 ^ 6
  · rw [(toDigits_natCast_iff n).mpr (sixDigits_of_lt hsix)]
    refine round_exact (m := n) (k := 0) hq (by simp) (by omega) (by decide) ?_
    calc (n : ℚ) < 2 ^ 53 := by exact_mod_cast hn
      _ < 2 ^ 1024 := pow_lt_pow_right₀ (by norm_num) (by norm_num)
  · obtain ⟨hlow, hhigh⟩ := significand_bounds (b := 10) (p := 6) (by decide) (by decide) hq
    have hexp := unitExp_natCast hn
    have hlog : 6 ≤ Nat.log 10 n := Nat.le_log_of_pow_le (by decide) (by omega)
    have hunit : unitExp 10 6 (n : ℚ) = Nat.log 10 n - 5 := by
      rw [unitExp, Int.log_natCast]
      push_cast
      ring
    obtain ⟨e, he⟩ : ∃ e : ℕ, unitExp 10 6 (n : ℚ) = e := ⟨Nat.log 10 n - 5, by omega⟩
    have hele : e ≤ 10 := by omega
    rw [toDigits_eq, he]
    generalize significand 10 6 (n : ℚ) = s at hlow hhigh
    have hspos : (0 : ℚ) < s := by
      have : (0 : ℤ) < s := lt_of_lt_of_le (by norm_num) hlow
      exact_mod_cast this
    have hfive : (5 : ℤ) ^ e ≤ 5 ^ 10 := pow_le_pow_right₀ (by norm_num) hele
    refine round_exact (m := s * 5 ^ e) (k := e) (mul_pos hspos (zpow_pos (by norm_num) _))
      ?_ ?_ (by omega) ?_
    · rw [zpow_natCast, zpow_natCast]
      push_cast
      rw [mul_assoc, ← mul_pow]
      norm_num
    · calc s * 5 ^ e ≤ 10 ^ 6 * 5 ^ 10 :=
            mul_le_mul hhigh hfive (by positivity) (by norm_num)
        _ < 2 ^ 53 := by norm_num
    · rw [zpow_natCast]
      calc (s : ℚ) * (10 : ℕ) ^ e ≤ 10 ^ 6 * 10 ^ 10 := by
            refine mul_le_mul (by exact_mod_cast hhigh) ?_ (by positivity) (by norm_num)
            exact pow_le_pow_right₀ (by norm_num) hele
        _ < 2 ^ 54 := by norm_num
        _ < 2 ^ 1024 := pow_lt_pow_right₀ (by norm_num) (by norm_num)

/-- What an integer below `2 ^ 53` comes back as. -/
def rereadInt (n : Int) : Double := .finite (n < 0) (toDigits 10 6 (n.natAbs : ℚ))

theorem rereadInt_eq_iff {n : Int} (hn : n.natAbs < 2 ^ 53) :
    rereadInt n = Double.ofInt n ↔ SixDigits n.natAbs := by
  rw [rereadInt, ofInt_eq hn, ← toDigits_natCast_iff]
  simp

/-- **Printed integers.** An integer below `2 ^ 53` is printed and scanned as its six digits. -/
theorem parseNumber_int {n : Int} (hn : n.natAbs < 2 ^ 53) {rest : Text} (hrest : EndsNumber rest)
    (i : Nat) :
    ∃ j, Json.parseNumber { rest := (Double.ofInt n).text ++ rest, i := i }
      = .ok (rereadInt n, { rest := rest, i := j }) := by
  have hexp := unitExp_natCast hn
  rw [ofInt_eq hn, rereadInt, ← round_toDigits _ hn]
  exact parseNumber_double _ (by positivity) (by omega) hrest i

end ProtoGpu
