import ProtoGpu.Lib.Throwing
import ProtoGpu.Proof.JsonRoundTrip

/-!
# What the JSON parser returns

Every call of the recursive descent passes over characters, so its depth is bounded by the text: a
text is parsed or an error of the text is reported. The objects of what is parsed are in key order.
-/

namespace ProtoGpu.Json

open Throwing

/-! ### Key order at every depth -/

mutual

def SortedValue : Value → Prop
  | .array a => SortedItems a
  | .object o => SortedMembers o ∧ Sorted o
  | _ => True

def SortedItems : List Value → Prop
  | [] => True
  | v :: vs => SortedValue v ∧ SortedItems vs

def SortedMembers : List (Text × Value) → Prop
  | [] => True
  | (_, v) :: o => SortedValue v ∧ SortedMembers o

end

theorem sortedItems_snoc {a : List Value} {v : Value} (ha : SortedItems a) (hv : SortedValue v) :
    SortedItems (a ++ [v]) := by
  induction a with
  | nil => exact ⟨hv, trivial⟩
  | cons w a ih => exact ⟨ha.1, ih ha.2⟩

theorem sortedMembers_emplace {k : Text} {v : Value} {o : Object} (ho : SortedMembers o)
    (hv : SortedValue v) : SortedMembers (emplace k v o) := by
  induction o with
  | nil => exact ⟨hv, trivial⟩
  | cons m o ih =>
      unfold emplace
      split
      · exact ⟨hv, ho⟩
      · split
        · exact ho
        · exact ⟨ho.1, ih ho.2⟩

/-! ### The cursor moves on -/

/-- An error of the text. -/
def Reported (e : ParseError) : Prop := e ≠ .depth

/-- It reports an error of the text, or its cursor has at most `n` characters left. -/
abbrev Leaves {α : Type} (n : Nat) (x : Except ParseError (α × Cursor)) (P : α → Prop) : Prop :=
  Ensures x Reported fun r => P r.1 ∧ r.2.rest.length ≤ n

theorem fail_reported {α : Type} (c : Cursor) (msg : String) {P : α → Prop} :
    Ensures (fail c msg : Except ParseError α) Reported P := .throw nofun

theorem length_skipWsFrom (s : Text) (i : Nat) : (skipWsFrom s i).rest.length ≤ s.length := by
  induction s generalizing i with
  | nil => exact le_rfl
  | cons ch s ih =>
      unfold skipWsFrom
      split
      · exact (ih (i + 1)).trans (Nat.le_succ _)
      · exact le_rfl

theorem length_skipWs (c : Cursor) : (skipWs c).rest.length ≤ c.rest.length := length_skipWsFrom ..

/-- A character other than the one that `peek` gives at the end is there. -/
theorem length_next {c : Cursor} {ch : Char} (hpeek : c.peek = ch) (hch : ch ≠ '\x00') :
    c.next.rest.length + 1 = c.rest.length := by
  unfold Cursor.peek at hpeek
  unfold Cursor.next
  cases hrest : c.rest with
  | nil =>
      rw [hrest] at hpeek
      exact absurd hpeek.symm hch
  | cons ch' rest => simp

theorem length_consume {c c' : Cursor} {ch : Char} (hch : ch ≠ '\x00')
    (hconsume : consume c ch = some c') : c'.rest.length + 1 = c.rest.length := by
  unfold consume at hconsume
  split at hconsume
  · next hpeek =>
    cases hconsume
    exact length_next (beq_iff_eq.mp hpeek) hch
  · cases hconsume

theorem expect_ensures {c : Cursor} {ch : Char} (hch : ch ≠ '\x00') :
    Ensures (expect c ch) Reported fun c' => c'.rest.length + 1 = c.rest.length := by
  unfold expect
  split
  · next c' hconsume => exact .pure (length_consume hch hconsume)
  · exact fail_reported ..

theorem parseStringFrom_ensures (s : Text) (i : Nat) (out : Text) :
    Leaves s.length (parseStringFrom s i out) fun _ => True := by
  induction s, i, out using parseStringFrom.induct with
  | case1 i out => exact fail_reported ..
  | case2 rest i out => exact .pure ⟨trivial, Nat.le_succ _⟩
  | case3 i out => exact fail_reported ..
  | case4 e rest i out ch hch ih =>
      rw [parseStringFrom, hch]
      refine ih.mono fun r hr => ⟨trivial, ?_⟩
      have := hr.2
      simp only [List.length_cons]
      omega
  | case5 e rest i out hch =>
      rw [parseStringFrom, hch]
      exact fail_reported ..
  | case6 ch rest i out hquote hlast hescape ih =>
      rw [parseStringFrom]
      · refine ih.mono fun r hr => ⟨trivial, ?_⟩
        have := hr.2
        simp only [List.length_cons]
        omega
      all_goals assumption

theorem parseString_ensures (c : Cursor) :
    Ensures (parseString c) Reported fun r => r.2.rest.length < c.rest.length := by
  refine (expect_ensures (by decide)).bind fun c' hc' => ?_
  exact (parseStringFrom_ensures ..).mono fun r hr => by have := hr.2; omega

theorem length_scanDigits (c : Cursor) : (scanDigits c).2.rest.length ≤ c.rest.length := by
  unfold scanDigits
  generalize c.i = i
  induction c.rest generalizing i with
  | nil => exact le_rfl
  | cons ch rest ih =>
      unfold scanDigitsFrom
      split
      · exact (ih (i + 1)).trans (Nat.le_succ _)
      · exact le_rfl

theorem parseFraction_ensures (c : Cursor) :
    Leaves c.rest.length (parseFraction c) fun _ => True := by
  unfold parseFraction
  split
  · exact .pure ⟨trivial, le_rfl⟩
  · next c' hconsume =>
    split
    · refine .pure ⟨trivial, (length_scanDigits c').trans ?_⟩
      have := length_consume (by decide) hconsume
      omega
    · exact fail_reported ..

theorem length_tail (c : Cursor) : c.next.rest.length ≤ c.rest.length := by
  rw [Cursor.next, List.length_tail]
  omega

theorem parseExponent_ensures (c : Cursor) :
    Leaves c.rest.length (parseExponent c) fun _ => True := by
  unfold parseExponent
  split
  · dsimp only
    have hsign : (if (c.next.peek == '+' || c.next.peek == '-') = true then c.next.next
        else c.next).rest.length ≤ c.rest.length := by
      split
      · exact (length_tail _).trans (length_tail c)
      · exact length_tail c
    generalize (if (c.next.peek == '+' || c.next.peek == '-') = true then c.next.next else c.next)
      = c₁
      at hsign
    split
    · exact .pure ⟨trivial, (length_scanDigits c₁).trans hsign⟩
    · exact fail_reported ..
  · exact .pure ⟨trivial, le_rfl⟩

theorem length_scanDigits_lt {c : Cursor} (hdigit : isDigit c.peek = true) :
    (scanDigits c).2.rest.length < c.rest.length := by
  unfold Cursor.peek at hdigit
  unfold scanDigits
  cases hrest : c.rest with
  | nil =>
      rw [hrest] at hdigit
      cases hdigit
  | cons ch rest =>
      rw [hrest, List.headD_cons] at hdigit
      rw [scanDigitsFrom, if_pos hdigit]
      exact Nat.lt_succ_of_le (length_scanDigits { rest := rest, i := c.i + 1 })

/-- A number has at least one digit. -/
theorem parseNumber_ensures (c : Cursor) :
    Ensures (parseNumber c) Reported fun r => r.2.rest.length < c.rest.length := by
  unfold parseNumber
  dsimp only
  have hsign : (if (c.peek == '-') = true then c.next else c).rest.length ≤ c.rest.length := by
    split
    · exact length_tail c
    · exact le_rfl
  generalize (if (c.peek == '-') = true then c.next else c) = c₁ at hsign
  split
  · next hdigit =>
    have hint : (if (c₁.peek == '0') = true then (['0'], c₁.next) else scanDigits c₁).2.rest.length
        < c₁.rest.length := by
      split
      · next hzero =>
        have := length_next (beq_iff_eq.mp hzero) (by decide)
        dsimp only
        omega
      · exact length_scanDigits_lt hdigit
    generalize (if (c₁.peek == '0') = true then (['0'], c₁.next) else scanDigits c₁) = r at hint
    obtain ⟨int, c₂⟩ := r
    refine (parseFraction_ensures c₂).bind fun frac hfrac => ?_
    refine (parseExponent_ensures frac.2).bind fun exp hexp => ?_
    refine .pure ?_
    have := hfrac.2
    have := hexp.2
    dsimp only at hint ⊢
    omega
  · exact fail_reported ..

theorem parseLiteral_ensures (c : Cursor) :
    Ensures (parseLiteral c) Reported fun r => SortedValue r.1 ∧
      r.2.rest.length < c.rest.length := by
  have hlit : ∀ {lit : Text} {c' : Cursor}, 0 < lit.length → matchLit c lit = some c' →
      c'.rest.length < c.rest.length := by
    intro lit c' hpos hmatch
    unfold matchLit at hmatch
    split at hmatch
    · next hprefix =>
      cases hmatch
      have := (List.isPrefixOf_iff_prefix.mp hprefix).length_le
      rw [List.length_drop]
      omega
    · cases hmatch
  unfold parseLiteral
  split
  · next c' hmatch => exact .pure ⟨trivial, hlit (by decide) hmatch⟩
  · split
    · next c' hmatch => exact .pure ⟨trivial, hlit (by decide) hmatch⟩
    · split
      · next c' hmatch => exact .pure ⟨trivial, hlit (by decide) hmatch⟩
      · exact fail_reported ..

/-! ### The descent -/

/-- With depth for each of its characters, what is left of a text is parsed as a value, or
reported. -/
def ParsesValue (fuel : Nat) : Prop :=
  ∀ c : Cursor, 3 * c.rest.length + 2 ≤ fuel →
    Ensures (parseValue fuel c) Reported fun r => SortedValue r.1 ∧ r.2.rest.length < c.rest.length

def ParsesArray (fuel : Nat) : Prop :=
  ∀ c : Cursor, 3 * c.rest.length + 1 ≤ fuel →
    Ensures (parseArray fuel c) Reported fun r => SortedItems r.1 ∧ r.2.rest.length < c.rest.length

def ParsesItems (fuel : Nat) : Prop :=
  ∀ (c : Cursor) (a : List Value), 3 * c.rest.length + 3 ≤ fuel → SortedItems a →
    Ensures (parseItems fuel c a) Reported fun r => SortedItems r.1 ∧
      r.2.rest.length < c.rest.length

def ParsesObject (fuel : Nat) : Prop :=
  ∀ c : Cursor, 3 * c.rest.length + 1 ≤ fuel →
    Ensures (parseObject fuel c) Reported fun r =>
      (SortedMembers r.1 ∧ Sorted r.1) ∧ r.2.rest.length < c.rest.length

def ParsesMembers (fuel : Nat) : Prop :=
  ∀ (c : Cursor) (o : Object), 3 * c.rest.length + 3 ≤ fuel → SortedMembers o ∧ Sorted o →
    Ensures (parseMembers fuel c o) Reported fun r =>
      (SortedMembers r.1 ∧ Sorted r.1) ∧ r.2.rest.length < c.rest.length

variable {fuel : Nat}

theorem parsesValue_succ (harray : ParsesArray fuel) (hobject : ParsesObject fuel) :
    ParsesValue (fuel + 1) := by
  intro c hfuel
  have hws := length_skipWs c
  unfold parseValue
  dsimp only
  generalize skipWs c = c₁ at hws
  split
  · exact (parseString_ensures c₁).bind fun r hr => .pure ⟨trivial, by dsimp only; omega⟩
  · split
    · exact (hobject c₁ (by omega)).bind fun r hr => .pure ⟨hr.1, by dsimp only; omega⟩
    · split
      · exact (harray c₁ (by omega)).bind fun r hr => .pure ⟨hr.1, by dsimp only; omega⟩
      · split
        · exact (parseNumber_ensures c₁).bind fun r hr => .pure ⟨trivial, by dsimp only; omega⟩
        · exact (parseLiteral_ensures c₁).mono fun r hr => ⟨hr.1, by omega⟩

theorem parsesArray_succ (hitems : ParsesItems fuel) : ParsesArray (fuel + 1) := by
  intro c hfuel
  unfold parseArray
  refine (expect_ensures (by decide)).bind fun c₁ hc₁ => ?_
  have hws := length_skipWs c₁
  dsimp only
  generalize skipWs c₁ = c₂ at hws
  split
  · next c₃ hclose =>
    have := length_consume (by decide) hclose
    exact .pure ⟨trivial, by dsimp only; omega⟩
  · exact (hitems c₂ [] (by omega) trivial).mono fun r hr => ⟨hr.1, by omega⟩

theorem parsesItems_succ (hvalue : ParsesValue fuel) (hitems : ParsesItems fuel) :
    ParsesItems (fuel + 1) := by
  intro c a hfuel ha
  have hws := length_skipWs c
  unfold parseItems
  refine (hvalue (skipWs c) (by omega)).bind fun r hr => ?_
  have hws' := length_skipWs r.2
  have hsnoc := sortedItems_snoc ha hr.1
  dsimp only
  generalize skipWs r.2 = c₂ at hws'
  split
  · next c₃ hclose =>
    have := length_consume (by decide) hclose
    exact .pure ⟨hsnoc, by dsimp only; omega⟩
  · refine (expect_ensures (by decide)).bind fun c₃ hc₃ => ?_
    exact (hitems c₃ _ (by omega) hsnoc).mono fun r' hr' => ⟨hr'.1, by omega⟩

theorem parsesObject_succ (hmembers : ParsesMembers fuel) : ParsesObject (fuel + 1) := by
  intro c hfuel
  unfold parseObject
  refine (expect_ensures (by decide)).bind fun c₁ hc₁ => ?_
  have hws := length_skipWs c₁
  dsimp only
  generalize skipWs c₁ = c₂ at hws
  split
  · next c₃ hclose =>
    have := length_consume (by decide) hclose
    exact .pure ⟨⟨trivial, .nil⟩, by dsimp only; omega⟩
  · exact (hmembers c₂ [] (by omega) ⟨trivial, .nil⟩).mono fun r hr => ⟨hr.1, by omega⟩

theorem parsesMembers_succ (hvalue : ParsesValue fuel) (hmembers : ParsesMembers fuel) :
    ParsesMembers (fuel + 1) := by
  intro c o hfuel ho
  have hws := length_skipWs c
  unfold parseMembers
  dsimp only
  generalize skipWs c = c₁ at hws
  split
  · refine (parseString_ensures c₁).bind fun r hk => ?_
    obtain ⟨k, ck⟩ := r
    have hwsk := length_skipWs ck
    dsimp only at hk
    refine (expect_ensures (by decide)).bind fun c₂ hc₂ => ?_
    have hws₂ := length_skipWs c₂
    dsimp only at hc₂
    refine (hvalue (skipWs c₂) (by omega)).bind fun r hr => ?_
    obtain ⟨v, cv⟩ := r
    have hws₃ := length_skipWs cv
    have hnext : SortedMembers (emplace k v o) ∧ Sorted (emplace k v o) :=
      ⟨sortedMembers_emplace ho.1 hr.1, sorted_emplace ho.2⟩
    dsimp only at hr ⊢
    generalize skipWs cv = c₃ at hws₃
    split
    · next c₄ hclose =>
      have := length_consume (by decide) hclose
      exact .pure ⟨hnext, by dsimp only; omega⟩
    · refine (expect_ensures (by decide)).bind fun c₄ hc₄ => ?_
      exact (hmembers c₄ _ (by omega) hnext).mono fun r' hr' => ⟨hr'.1, by omega⟩
  · exact fail_reported ..

theorem parses (fuel : Nat) : ParsesValue fuel ∧ ParsesArray fuel ∧ ParsesItems fuel
    ∧ ParsesObject fuel ∧ ParsesMembers fuel := by
  induction fuel with
  | zero =>
      exact ⟨fun c h => absurd h (by omega), fun c h => absurd h (by omega),
        fun c a h => absurd h (by omega), fun c h => absurd h (by omega),
        fun c o h => absurd h (by omega)⟩
  | succ fuel ih =>
      obtain ⟨hvalue, harray, hitems, hobject, hmembers⟩ := ih
      exact ⟨parsesValue_succ harray hobject, parsesArray_succ hitems,
        parsesItems_succ hvalue hitems,
        parsesObject_succ hmembers, parsesMembers_succ hvalue hmembers⟩

/-- **A text is parsed, or an error of the text is reported.** -/
theorem parse_ensures (text : Text) : Ensures (parse text) Reported SortedValue := by
  refine ((parses _).1 { rest := text } (by dsimp only; omega)).bind fun (v, c) hr => ?_
  dsimp only
  split
  · exact .pure hr.1
  · exact fail_reported ..

end ProtoGpu.Json
