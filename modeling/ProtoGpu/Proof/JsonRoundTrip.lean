import ProtoGpu.Proof.DoubleText
import Mathlib.Data.Char
import Mathlib.Data.List.Lex

/-!
# Printed values, parsed back

`json::parse` undoes `json::stringify` but for numbers: these come back as the stream printed them.
The induction is on the value; what carries it is that a printed value ends where the parser of the
value ends, whatever follows, unless a number could go on.
-/

namespace ProtoGpu.Json

/-! ### Objects -/

abbrev Keys (o : Object) : List Text := o.map Prod.fst

/-- The members of a `std::map`, in key order. -/
def Sorted (o : Object) : Prop := (Keys o).Pairwise (· < ·)

theorem find?_eq_none {k : Text} {o : Object} (h : k ∉ Keys o) : find? k o = none := by
  induction o with
  | nil => rfl
  | cons m o ih =>
      obtain ⟨k', v⟩ := m
      rw [Keys, List.map_cons, List.mem_cons, not_or] at h
      rw [find?, if_neg h.1, ih h.2]

theorem mem_keys_emplace {k k' : Text} {v : Value} {o : Object} :
    k' ∈ Keys (emplace k v o) ↔ k' = k ∨ k' ∈ Keys o := by
  induction o with
  | nil => simp [emplace, Keys]
  | cons m o ih =>
      obtain ⟨k₁, v₁⟩ := m
      rw [emplace]
      split
      · simp [Keys]
      · split
        next heq => simp [Keys, heq]
        next hne =>
          simp only [Keys, List.map_cons, List.mem_cons] at ih ⊢
          rw [ih]
          exact or_left_comm

theorem sorted_emplace {k : Text} {v : Value} {o : Object} (h : Sorted o) :
    Sorted (emplace k v o) := by
  induction o with
  | nil => simp [emplace, Sorted, Keys]
  | cons m o ih =>
      obtain ⟨k₁, v₁⟩ := m
      obtain ⟨hfirst, hrest⟩ := List.pairwise_cons.mp h
      rw [emplace]
      split
      next hlt =>
        refine List.pairwise_cons.mpr ⟨fun k' hk' => ?_, h⟩
        rcases List.mem_cons.mp hk' with rfl | hk'
        · exact hlt
        · exact lt_trans hlt (hfirst k' hk')
      next hle =>
        split
        · exact h
        next hne =>
          have hgt : k₁ < k := lt_of_le_of_ne (le_of_not_gt hle) (Ne.symm hne)
          refine List.pairwise_cons.mpr ⟨fun k' hk' => ?_, ih hrest⟩
          rcases mem_keys_emplace.mp hk' with rfl | hk'
          · exact hgt
          · exact hfirst k' hk'

theorem find?_emplace (k k' : Text) (v : Value) {o : Object} (h : Sorted o) :
    find? k' (emplace k v o) = if k' = k then (find? k o).or (some v) else find? k' o := by
  induction o with
  | nil => simp [emplace, find?]
  | cons m o ih =>
      obtain ⟨k₁, v₁⟩ := m
      obtain ⟨hfirst, hrest⟩ := List.pairwise_cons.mp h
      rw [emplace]
      split
      next hlt =>
        have hnone : find? k ((k₁, v₁) :: o) = none := by
          apply find?_eq_none
          rw [Keys, List.map_cons, List.mem_cons, not_or]
          exact ⟨hlt.ne, fun hmem => lt_asymm hlt (hfirst k hmem)⟩
        rw [find?, hnone, Option.none_or]
      next hle =>
        split
        next heq =>
          subst heq
          rw [find?, find?]
          split <;> simp_all
        next hne =>
          rw [find?, ih hrest, find?, find?, if_neg hne]
          by_cases hk : k' = k₁
          · rw [if_pos hk, if_pos hk, if_neg]
            rintro rfl
            exact hne hk
          · rw [if_neg hk, if_neg hk]

/-- A key past all others goes to the end. -/
theorem emplace_last {k : Text} (v : Value) {o : Object} (h : ∀ k' ∈ Keys o, k' < k) :
    emplace k v o = o ++ [(k, v)] := by
  induction o with
  | nil => rfl
  | cons m o ih =>
      obtain ⟨k₁, v₁⟩ := m
      have hlt : k₁ < k := h k₁ (by simp [Keys])
      rw [emplace, if_neg (lt_asymm hlt), if_neg hlt.ne', List.cons_append,
        ih fun k' hk' => h k' (by simp [Keys] at hk' ⊢; exact .inr hk')]

/-! ### What is printed and what comes back -/

/-- A finite double the stream prints in at most two exponent digits' range of `%g`. -/
def PrintsFinite : Double → Prop
  | .finite _ mag => 0 ≤ mag ∧ (Rounding.unitExp 10 6 mag).natAbs < 900
  | .inf _ => False

def rereadDouble : Double → Double
  | .finite neg mag => Double.round neg (Rounding.toDigits 10 6 mag)
  | .inf neg => .inf neg

mutual

/-- The numbers are finite and the objects in key order. -/
def Printable : Value → Prop
  | .null => True
  | .bool _ => True
  | .number d => PrintsFinite d
  | .string _ => True
  | .array a => PrintableItems a
  | .object o => PrintableMembers o ∧ Sorted o

def PrintableItems : List Value → Prop
  | [] => True
  | v :: vs => Printable v ∧ PrintableItems vs

def PrintableMembers : List (Text × Value) → Prop
  | [] => True
  | (_, v) :: o => Printable v ∧ PrintableMembers o

end

mutual

/-- The value with each number as the stream prints it. -/
def reread : Value → Value
  | .null => .null
  | .bool v => .bool v
  | .number d => .number (rereadDouble d)
  | .string s => .string s
  | .array a => .array (rereadItems a)
  | .object o => .object (rereadMembers o)

def rereadItems : List Value → List Value
  | [] => []
  | v :: vs => reread v :: rereadItems vs

def rereadMembers : List (Text × Value) → List (Text × Value)
  | [] => []
  | (k, v) :: o => (k, reread v) :: rereadMembers o

end

theorem find?_rereadMembers (k : Text) (o : Object) :
    find? k (rereadMembers o) = (find? k o).map reread := by
  induction o with
  | nil => rfl
  | cons m o ih =>
      obtain ⟨k', v⟩ := m
      rw [rereadMembers, find?, find?, ih]
      split <;> rfl

/-! ### Strings -/

theorem parseStringFrom_escape (s rest out : Text) (i : Nat) :
    ∃ j, parseStringFrom (s.flatMap escape ++ '"' :: rest) i out
      = .ok (out ++ s, { rest := rest, i := j }) := by
  induction s generalizing out i with
  | nil => exact ⟨i + 1, by simp [parseStringFrom]⟩
  | cons ch s ih =>
      rw [List.flatMap_cons, List.append_assoc]
      have hmove : ∀ j, ∃ j', parseStringFrom (s.flatMap escape ++ '"' :: rest) j (out ++ [ch])
          = .ok (out ++ ch :: s, { rest := rest, i := j' }) := by
        intro j
        simpa using ih (out ++ [ch]) j
      unfold escape
      split
      · exact hmove (i + 2)
      · exact hmove (i + 2)
      · exact hmove (i + 2)
      · exact hmove (i + 2)
      · exact hmove (i + 2)
      next hquote hslash _ _ _ =>
        obtain ⟨j, hj⟩ := hmove (i + 1)
        refine ⟨j, ?_⟩
        rw [List.singleton_append, parseStringFrom]
        · exact hj
        · exact hquote
        · exact fun hch _ => hslash hch
        · exact fun _ _ hch _ => hslash hch

theorem parseString_stringify (s rest : Text) (i : Nat) :
    ∃ j, parseString { rest := stringifyString s ++ rest, i := i }
      = .ok (s, { rest := rest, i := j }) := by
  obtain ⟨j, hj⟩ := parseStringFrom_escape s rest [] (i + 1)
  refine ⟨j, ?_⟩
  have htext : stringifyString s ++ rest = '"' :: (s.flatMap escape ++ '"' :: rest) := by
    simp [stringifyString]
  rw [htext, parseString, expect, consume_cons]
  exact hj

/-! ### How a printed value begins -/

theorem skipWs_cons {ch : Char} (h : isSpace ch = false) (rest : Text) (i : Nat) :
    skipWs { rest := ch :: rest, i := i } = { rest := ch :: rest, i := i } := by
  rw [skipWs, skipWsFrom, if_neg (by rw [h]; decide)]

theorem not_space_of_isDigit {ch : Char} (h : isDigit ch = true) : isSpace ch = false := by
  unfold isSpace
  simp only [Bool.or_eq_false_iff, beq_eq_false_iff_ne]
  refine ⟨⟨⟨⟨⟨?_, ?_⟩, ?_⟩, ?_⟩, ?_⟩, ?_⟩
  all_goals
    rintro rfl
    revert h
    decide

/-- A printed number begins with its sign or a digit. -/
theorem double_text_head {d : Double} (hd : PrintsFinite d) :
    ∃ ch t, d.text = ch :: t ∧ (ch = '-' ∨ isDigit ch = true) := by
  cases d with
  | inf neg => exact hd.elim
  | finite neg mag =>
      obtain ⟨hvalid, -⟩ := magDecimal_spec neg hd.1 hd.2
      obtain ⟨hneg, -⟩ := magDecimal_sign neg mag
      obtain ⟨ch, t, hint⟩ : ∃ ch t, (magDecimal neg mag).int = ch :: t := by
        rcases hvalid.leading with h | ⟨ch, digits, h, -⟩
        · exact ⟨_, _, h⟩
        · exact ⟨_, _, h⟩
      have hdigit : isDigit ch = true := hvalid.int ch (by simp [hint])
      rw [← magDecimal_text, Decimal.text, hneg, hint]
      cases neg with
      | true => exact ⟨'-', _, rfl, .inl rfl⟩
      | false => exact ⟨ch, _, rfl, .inr hdigit⟩

theorem stringify_head {v : Value} (hv : Printable v) :
    ∃ ch t, stringify v = ch :: t ∧ isSpace ch = false ∧ (ch == ']') = false := by
  cases v with
  | null => exact ⟨'n', _, rfl, by decide⟩
  | bool b => cases b with
    | true => exact ⟨'t', _, rfl, by decide⟩
    | false => exact ⟨'f', _, rfl, by decide⟩
  | number d =>
      rw [Printable] at hv
      obtain ⟨ch, t, htext, hch⟩ := double_text_head hv
      refine ⟨ch, t, by rw [stringify, htext], ?_⟩
      rcases hch with rfl | hdigit
      · decide
      · exact ⟨not_space_of_isDigit hdigit,
          beq_eq_false_iff_ne.mpr (peek_ne_of_digit hdigit (by decide))⟩
  | string s => exact ⟨'"', _, by rw [stringify, stringifyString]; rfl, by decide⟩
  | array a => exact ⟨'[', _, by rw [stringify]; rfl, by decide⟩
  | object o => exact ⟨'\x7b', _, by rw [stringify]; rfl, by decide⟩

theorem skipWs_stringify {v : Value} (hv : Printable v) (rest : Text) (i : Nat) :
    skipWs { rest := stringify v ++ rest, i := i } = { rest := stringify v ++ rest, i := i } := by
  obtain ⟨ch, t, htext, hch, -⟩ := stringify_head hv
  rw [htext, List.cons_append]
  exact skipWs_cons hch _ _

theorem endsNumber_cons {ch : Char} (rest : Text)
    (h : isDigit ch = false ∧ ch ≠ '.' ∧ ch ≠ 'e' ∧ ch ≠ 'E') : EndsNumber (ch :: rest) := by
  intro c hc
  obtain rfl : ch = c := Option.some.inj hc
  exact h

/-! ### Scalars -/

theorem parseNumber_stringify {d : Double} (hd : PrintsFinite d) {rest : Text}
    (hrest : EndsNumber rest) (i : Nat) :
    ∃ j, parseNumber { rest := d.text ++ rest, i := i }
      = .ok (rereadDouble d, { rest := rest, i := j }) := by
  cases d with
  | inf neg => exact hd.elim
  | finite neg mag => exact parseNumber_double neg hd.1 hd.2 hrest i

section Parse

variable {fuel : Nat} {rest : Text}

theorem parseValue_string (s : Text) (i : Nat) :
    ∃ j, parseValue (fuel + 1) { rest := stringifyString s ++ rest, i := i }
      = .ok (.string s, { rest := rest, i := j }) := by
  obtain ⟨j, hj⟩ := parseString_stringify s rest i
  refine ⟨j, ?_⟩
  have hskip : skipWs { rest := stringifyString s ++ rest, i := i }
      = { rest := stringifyString s ++ rest, i := i } := skipWs_cons (by decide) _ _
  have hpeek : Cursor.peek { rest := stringifyString s ++ rest, i := i } = '"' := rfl
  rw [parseValue, hskip, hpeek, hj]
  rfl

theorem parseValue_number {d : Double} (hd : PrintsFinite d) (hrest : EndsNumber rest) (i : Nat) :
    ∃ j, parseValue (fuel + 1) { rest := d.text ++ rest, i := i }
      = .ok (.number (rereadDouble d), { rest := rest, i := j }) := by
  obtain ⟨j, hj⟩ := parseNumber_stringify hd hrest i
  refine ⟨j, ?_⟩
  obtain ⟨ch, t, htext, hch⟩ := double_text_head hd
  have hspace : isSpace ch = false := by
    rcases hch with rfl | hdigit
    · decide
    · exact not_space_of_isDigit hdigit
  have hskip : skipWs { rest := d.text ++ rest, i := i } = { rest := d.text ++ rest, i := i } := by
    rw [htext, List.cons_append]
    exact skipWs_cons hspace _ _
  have hpeek : Cursor.peek { rest := d.text ++ rest, i := i } = ch := by rw [htext]; rfl
  have hne : ∀ c, c ≠ '-' → isDigit c = false → (ch == c) = false := by
    intro c hminus hdigit
    rw [beq_eq_false_iff_ne]
    rintro rfl
    rcases hch with hch | hch
    · exact hminus hch
    · rw [hch] at hdigit
      cases hdigit
  have hnum : (ch == '-' || isDigit ch) = true := by
    rcases hch with rfl | hdigit
    · rfl
    · rw [hdigit, Bool.or_true]
  rw [parseValue, hskip, hpeek, hj]
  simp only [hne '"' (by decide) (by decide), hne '\x7b' (by decide) (by decide),
    hne '[' (by decide) (by decide), hnum, Bool.false_eq_true, if_false, if_true]
  rfl

theorem parseValue_literal {v : Value} (i : Nat) (h : (∃ b, v = .bool b) ∨ v = .null) :
    ∃ j, parseValue (fuel + 1) { rest := stringify v ++ rest, i := i }
      = .ok (v, { rest := rest, i := j }) := by
  rcases h with ⟨b, rfl⟩ | rfl
  · cases b with
    | true => exact ⟨i + 4, rfl⟩
    | false => exact ⟨i + 5, rfl⟩
  · exact ⟨i + 4, rfl⟩

end Parse

/-! ### Values -/

theorem ok_bind {α β : Type} (a : α) (f : α → Except ParseError β) :
    (Except.ok a >>= f) = f a := rfl

/-- What the parser of values must do with a printed value. -/
def ParsesBack (v : Value) : Prop :=
  Printable v → ∀ (fuel : Nat) (rest : Text) (i : Nat), 3 * (stringify v).length ≤ fuel →
    EndsNumber rest → ∃ j, parseValue fuel { rest := stringify v ++ rest, i := i }
      = .ok (reread v, { rest := rest, i := j })

def ItemsParseBack (vs : List Value) : Prop :=
  PrintableItems vs → vs ≠ [] → ∀ (fuel : Nat) (acc : List Value) (rest : Text) (i : Nat),
    3 * (commas (stringifyItems vs)).length + 1 ≤ fuel →
      ∃ j, parseItems fuel { rest := commas (stringifyItems vs) ++ ']' :: rest, i := i } acc
        = .ok (acc ++ rereadItems vs, { rest := rest, i := j })

def MembersParseBack (o : Object) : Prop :=
  PrintableMembers o → o ≠ [] → ∀ (fuel : Nat) (acc : Object) (rest : Text) (i : Nat),
    (Keys acc ++ Keys o).Pairwise (· < ·) →
      3 * (commas (stringifyMembers o)).length + 1 ≤ fuel →
        ∃ j, parseMembers fuel { rest := commas (stringifyMembers o) ++ '\x7d' :: rest, i := i } acc
          = .ok (acc ++ rereadMembers o, { rest := rest, i := j })

theorem consume_of_ne {ch ch' : Char} (h : (ch' == ch) = false) (rest : Text) (i : Nat) :
    consume { rest := ch' :: rest, i := i } ch = none := by
  simp [consume, Cursor.peek, h]

theorem expect_cons (ch : Char) (rest : Text) (i : Nat) :
    expect { rest := ch :: rest, i := i } ch = .ok { rest := rest, i := i + 1 } := by
  rw [expect, consume_cons]

theorem itemsParseBack_cons {v : Value} {vs : List Value} (hv : ParsesBack v)
    (hvs : ItemsParseBack vs) : ItemsParseBack (v :: vs) := by
  intro hprint _ fuel acc rest i hfuel
  obtain ⟨hprintv, hprintvs⟩ := hprint
  obtain ⟨fuel, rfl⟩ : ∃ n, fuel = n + 1 := ⟨fuel - 1, by omega⟩
  cases vs with
  | nil =>
      simp only [stringifyItems, commas] at hfuel ⊢
      obtain ⟨j, hj⟩ := hv hprintv fuel (']' :: rest) i (by omega)
        (endsNumber_cons _ (by decide))
      refine ⟨j + 1, ?_⟩
      rw [parseItems, skipWs_stringify hprintv, hj, ok_bind]
      simp only [skipWs_cons (show isSpace ']' = false by decide), consume_cons]
      rfl
  | cons w vs =>
      have hcommas : commas (stringifyItems (v :: w :: vs))
          = stringify v ++ ',' :: commas (stringifyItems (w :: vs)) := rfl
      rw [hcommas] at hfuel ⊢
      rw [List.length_append, List.length_cons] at hfuel
      obtain ⟨j, hj⟩ := hv hprintv fuel
        (',' :: (commas (stringifyItems (w :: vs)) ++ ']' :: rest)) i (by omega)
        (endsNumber_cons _ (by decide))
      obtain ⟨j', hj'⟩ := hvs hprintvs (by simp) fuel (acc ++ [reread v]) rest (j + 1) (by omega)
      refine ⟨j', ?_⟩
      rw [List.append_assoc, List.cons_append, parseItems, skipWs_stringify hprintv, hj, ok_bind]
      simp only [skipWs_cons (show isSpace ',' = false by decide),
        consume_of_ne (show (',' == ']') = false by decide), expect_cons, ok_bind]
      rw [hj', rereadItems, List.append_assoc]
      rfl

theorem emplace_reread {k : Text} {v : Value} {acc o : Object}
    (hkeys : (Keys acc ++ Keys ((k, v) :: o)).Pairwise (· < ·)) :
    emplace k (reread v) acc = acc ++ [(k, reread v)]
      ∧ (Keys (acc ++ [(k, reread v)]) ++ Keys o).Pairwise (· < ·) := by
  constructor
  · refine emplace_last _ fun k' hk' => ?_
    exact (List.pairwise_append.mp hkeys).2.2 k' hk' k (by simp [Keys])
  · simpa [Keys] using hkeys

/-- One turn of the object loop, up to what follows the member. -/
theorem parseMembers_turn {v : Value} (hv : ParsesBack v) (hprint : Printable v) {fuel : Nat}
    (hfuel : 3 * (stringify v).length ≤ fuel) (k : Text) (ch : Char) (rest : Text)
    (hch : isDigit ch = false ∧ ch ≠ '.' ∧ ch ≠ 'e' ∧ ch ≠ 'E') (hspace : isSpace ch = false)
    (acc : Object) (i : Nat) :
    ∃ j, parseMembers (fuel + 1)
        { rest := stringifyString k ++ ':' :: (stringify v ++ ch :: rest), i := i } acc
      = (match consume { rest := ch :: rest, i := j } '\x7d' with
        | some c => .ok (emplace k (reread v) acc, c)
        | none => do
            let c ← expect { rest := ch :: rest, i := j } ','
            parseMembers fuel c (emplace k (reread v) acc)) := by
  obtain ⟨j₁, hj₁⟩ := parseString_stringify k (':' :: (stringify v ++ ch :: rest)) i
  obtain ⟨j₂, hj₂⟩ := hv hprint fuel (ch :: rest) (j₁ + 1) hfuel (endsNumber_cons _ hch)
  refine ⟨j₂, ?_⟩
  have hskip : skipWs
      { rest := stringifyString k ++ ':' :: (stringify v ++ ch :: rest), i := i }
      = { rest := stringifyString k ++ ':' :: (stringify v ++ ch :: rest), i := i } :=
    skipWs_cons (by decide) _ _
  have hpeek : (Cursor.peek { rest := stringifyString k ++ ':' :: (stringify v ++ ch :: rest)
                              i := i } == '"') = true := rfl
  rw [parseMembers]
  simp only [hskip, hpeek, if_true, hj₁, ok_bind, skipWs_cons (show isSpace ':' = false by decide),
    expect_cons, skipWs_stringify hprint, hj₂, skipWs_cons hspace]
  rfl

theorem membersParseBack_cons {k : Text} {v : Value} {o : Object} (hv : ParsesBack v)
    (ho : MembersParseBack o) : MembersParseBack ((k, v) :: o) := by
  intro hprint _ fuel acc rest i hkeys hfuel
  obtain ⟨hprintv, hprinto⟩ := hprint
  obtain ⟨hlast, hkeys'⟩ := emplace_reread hkeys
  obtain ⟨fuel, rfl⟩ : ∃ n, fuel = n + 1 := ⟨fuel - 1, by omega⟩
  cases o with
  | nil =>
      simp only [stringifyMembers, commas, List.length_append, List.length_cons] at hfuel ⊢
      have hfuel' : 3 * (stringify v).length ≤ fuel := by omega
      obtain ⟨j, hj⟩ := parseMembers_turn hv hprintv hfuel' k '\x7d' rest (by decide) (by decide)
        acc i
      refine ⟨j + 1, ?_⟩
      rw [List.append_assoc, List.cons_append, hj, consume_cons, hlast]
      rfl
  | cons m o =>
      have hcommas : commas (stringifyMembers ((k, v) :: m :: o))
          = stringifyString k ++ ':' :: stringify v ++ ',' :: commas (stringifyMembers (m :: o)) :=
        rfl
      rw [hcommas] at hfuel ⊢
      simp only [List.length_append, List.length_cons] at hfuel
      have hfuel' : 3 * (stringify v).length ≤ fuel := by omega
      obtain ⟨j, hj⟩ := parseMembers_turn hv hprintv hfuel' k ','
        (commas (stringifyMembers (m :: o)) ++ '\x7d' :: rest) (by decide) (by decide) acc i
      obtain ⟨j', hj'⟩ := ho hprinto (by simp) fuel _ rest (j + 1) hkeys' (by omega)
      refine ⟨j', ?_⟩
      simp only [List.append_assoc, List.cons_append]
      rw [hj, consume_of_ne (by decide), hlast]
      simp only [expect_cons, ok_bind]
      rw [hj', rereadMembers, List.append_assoc]
      rfl


theorem commas_items_head {v : Value} (hv : Printable v) (vs : List Value) :
    ∃ ch t, commas (stringifyItems (v :: vs)) = ch :: t ∧ isSpace ch = false
      ∧ (ch == ']') = false := by
  obtain ⟨ch, t, htext, hspace, hclose⟩ := stringify_head hv
  cases vs with
  | nil => exact ⟨ch, t, htext, hspace, hclose⟩
  | cons w vs =>
      refine ⟨ch, t ++ ',' :: commas (stringifyItems (w :: vs)), ?_, hspace, hclose⟩
      rw [← List.cons_append, ← htext]
      rfl

theorem commas_members_head (m : Text × Value) (o : Object) :
    ∃ t, commas (stringifyMembers (m :: o)) = '"' :: t := by
  cases o with
  | nil => exact ⟨_, rfl⟩
  | cons m' o => exact ⟨_, rfl⟩

theorem exists_fuel {v : Value} (hv : Printable v) {fuel : Nat}
    (hfuel : 3 * (stringify v).length ≤ fuel) : ∃ n, fuel = n + 1 := by
  obtain ⟨ch, t, htext, -, -⟩ := stringify_head hv
  rw [htext, List.length_cons] at hfuel
  exact ⟨fuel - 1, by omega⟩

theorem parsesBack_array {a : List Value} (ha : ItemsParseBack a) : ParsesBack (.array a) := by
  intro hprint fuel rest i hfuel _
  obtain ⟨fuel, rfl⟩ : ∃ n, fuel = n + 2 := by
    simp only [stringify, List.length_append, List.length_cons] at hfuel
    exact ⟨fuel - 2, by omega⟩
  have htext :
      stringify (.array a) ++ rest = '[' :: (commas (stringifyItems a) ++ ']' :: rest) := by
    simp [stringify]
  have hvalue : parseValue (fuel + 2) { rest := '[' :: (commas (stringifyItems a) ++ ']' :: rest)
                                        i := i }
      = (parseArray (fuel + 1)
            { rest := '[' :: (commas (stringifyItems a) ++ ']' :: rest), i := i }
          >>= fun r => .ok (.array r.1, r.2)) := rfl
  rw [htext, hvalue, parseArray, expect_cons]
  simp only [ok_bind]
  cases a with
  | nil => exact ⟨i + 2, rfl⟩
  | cons v vs =>
      simp only [Printable, PrintableItems] at hprint
      have hbound : 3 * (commas (stringifyItems (v :: vs))).length + 1 ≤ fuel := by
        simp only [stringify, List.length_append, List.length_cons] at hfuel
        omega
      obtain ⟨j, hj⟩ := ha hprint (by simp) fuel [] rest (i + 1) hbound
      refine ⟨j, ?_⟩
      obtain ⟨ch, t, hhead, hspace, hclose⟩ := commas_items_head hprint.1 vs
      rw [hhead, List.cons_append] at hj ⊢
      rw [skipWs_cons hspace, consume_of_ne hclose]
      simp only [hj, ok_bind]
      rfl

theorem parsesBack_object {o : Object} (ho : MembersParseBack o) : ParsesBack (.object o) := by
  intro hprint fuel rest i hfuel _
  obtain ⟨fuel, rfl⟩ : ∃ n, fuel = n + 2 := by
    simp only [stringify, List.length_append, List.length_cons] at hfuel
    exact ⟨fuel - 2, by omega⟩
  have htext : stringify (.object o) ++ rest
      = '\x7b' :: (commas (stringifyMembers o) ++ '\x7d' :: rest) := by
    simp [stringify]
  have hvalue : parseValue (fuel + 2)
        { rest := '\x7b' :: (commas (stringifyMembers o) ++ '\x7d' :: rest), i := i }
      = (parseObject (fuel + 1)
            { rest := '\x7b' :: (commas (stringifyMembers o) ++ '\x7d' :: rest), i := i }
          >>= fun r => .ok (.object r.1, r.2)) := rfl
  rw [htext, hvalue, parseObject, expect_cons]
  simp only [ok_bind]
  cases o with
  | nil => exact ⟨i + 2, rfl⟩
  | cons m o =>
      obtain ⟨hmembers, hsorted⟩ := hprint
      have hbound : 3 * (commas (stringifyMembers (m :: o))).length + 1 ≤ fuel := by
        simp only [stringify, List.length_append, List.length_cons] at hfuel
        omega
      obtain ⟨j, hj⟩ := ho hmembers (by simp) fuel [] rest (i + 1) hsorted hbound
      refine ⟨j, ?_⟩
      obtain ⟨t, hhead⟩ := commas_members_head m o
      rw [hhead, List.cons_append] at hj ⊢
      rw [skipWs_cons (by decide), consume_of_ne (by decide)]
      simp only [hj, ok_bind]
      rfl

/-- **Round trip of a value**, inside any text that a number does not go on into. -/
theorem parseValue_stringify (v : Value) : ParsesBack v := by
  induction v using stringify.induct (motive_2 := MembersParseBack)
    (motive_3 := ItemsParseBack) with
  | case1 =>
      intro hprint fuel rest i hfuel _
      obtain ⟨n, rfl⟩ := exists_fuel hprint hfuel
      exact parseValue_literal i (.inr rfl)
  | case2 b =>
      intro hprint fuel rest i hfuel _
      obtain ⟨n, rfl⟩ := exists_fuel hprint hfuel
      exact parseValue_literal i (.inl ⟨b, rfl⟩)
  | case3 d =>
      intro hprint fuel rest i hfuel hrest
      obtain ⟨n, rfl⟩ := exists_fuel hprint hfuel
      exact parseValue_number hprint hrest i
  | case4 s =>
      intro hprint fuel rest i hfuel _
      obtain ⟨n, rfl⟩ := exists_fuel hprint hfuel
      exact parseValue_string s i
  | case5 a ih => exact parsesBack_array ih
  | case6 o ih => exact parsesBack_object ih
  | case7 => exact fun _ hne => absurd rfl hne
  | case8 v vs ihv ihvs => exact itemsParseBack_cons ihv ihvs
  | case9 => exact fun _ hne => absurd rfl hne
  | case10 k v o ihv iho => exact membersParseBack_cons ihv iho

/-- **Round trip of a document**, with white space after it. -/
theorem parse_stringify {v : Value} (hv : Printable v) {blank : Text}
    (hblank : ∀ ch ∈ blank, isSpace ch = true) :
    parse (stringify v ++ blank) = .ok (reread v) := by
  have hrest : EndsNumber blank := by
    intro ch hch
    have hspace := hblank ch (List.mem_of_mem_head? hch)
    refine ⟨?_, ?_, ?_, ?_⟩
    · by_contra hdigit
      rw [not_space_of_isDigit (Bool.eq_true_of_not_eq_false hdigit)] at hspace
      cases hspace
    all_goals
      rintro rfl
      revert hspace
      decide
  have hskip : ∀ (t : Text) (i : Nat), (∀ ch ∈ t, isSpace ch = true) →
      (skipWs { rest := t, i := i }).eof = true := by
    intro t
    induction t with
    | nil => exact fun _ _ => rfl
    | cons ch t ih =>
        intro i ht
        rw [skipWs, skipWsFrom, if_pos (ht ch (by simp))]
        exact ih (i + 1) fun c hc => ht c (by simp [hc])
  obtain ⟨j, hj⟩ := parseValue_stringify v hv
    (3 * (stringify v ++ blank).length + 3) blank 0
    (by rw [List.length_append]; omega) hrest
  rw [parse, hj]
  simp only [ok_bind, hskip blank j hblank, if_true]
  rfl

end ProtoGpu.Json
