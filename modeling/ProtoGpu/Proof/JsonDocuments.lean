import ProtoGpu.Proof.TraceNumbers

/-!
# Documents without numbers

A value in which no number occurs is what it was after printing and parsing. A document carried as a
string inside an event comes back with the line, whatever the integers of the event are: each of
them is printed as some number.
-/

namespace ProtoGpu

namespace Json

mutual

/-- No number occurs, and the members of each object are in key order. -/
def NumberFree : Value → Prop
  | .null => True
  | .bool _ => True
  | .number _ => False
  | .string _ => True
  | .array a => NumberFreeItems a
  | .object o => NumberFreeMembers o ∧ Sorted o

def NumberFreeItems : List Value → Prop
  | [] => True
  | v :: vs => NumberFree v ∧ NumberFreeItems vs

def NumberFreeMembers : List (Text × Value) → Prop
  | [] => True
  | (_, v) :: o => NumberFree v ∧ NumberFreeMembers o

end

/-- A value that prints and comes back as it is. -/
def Exact (v : Value) : Prop := NumberFree v → Printable v ∧ reread v = v

def ExactItems (a : List Value) : Prop :=
  NumberFreeItems a → PrintableItems a ∧ rereadItems a = a

def ExactMembers (o : Object) : Prop :=
  NumberFreeMembers o → PrintableMembers o ∧ rereadMembers o = o

theorem exact_of_numberFree (v : Value) : Exact v := by
  induction v using stringify.induct (motive_2 := ExactMembers) (motive_3 := ExactItems) with
  | case1 => exact fun _ => ⟨trivial, rfl⟩
  | case2 b => exact fun _ => ⟨trivial, rfl⟩
  | case3 d => exact fun hfree => hfree.elim
  | case4 s => exact fun _ => ⟨trivial, rfl⟩
  | case5 a ih =>
      intro hfree
      obtain ⟨hprint, hsame⟩ := ih hfree
      exact ⟨hprint, by rw [reread, hsame]⟩
  | case6 o ih =>
      intro hfree
      obtain ⟨hmembers, hsorted⟩ := hfree
      obtain ⟨hprint, hsame⟩ := ih hmembers
      exact ⟨⟨hprint, hsorted⟩, by rw [reread, hsame]⟩
  | case7 => exact fun _ => ⟨trivial, rfl⟩
  | case8 v vs ihv ihvs =>
      intro hfree
      obtain ⟨hprintv, hsamev⟩ := ihv hfree.1
      obtain ⟨hprintvs, hsamevs⟩ := ihvs hfree.2
      exact ⟨⟨hprintv, hprintvs⟩, by rw [rereadItems, hsamev, hsamevs]⟩
  | case9 => exact fun _ => ⟨trivial, rfl⟩
  | case10 k v o ihv iho =>
      intro hfree
      obtain ⟨hprintv, hsamev⟩ := ihv hfree.1
      obtain ⟨hprinto, hsameo⟩ := iho hfree.2
      exact ⟨⟨hprintv, hprinto⟩, by rw [rereadMembers, hsamev, hsameo]⟩

/-- A value that printing and parsing give back. -/
structure ReadsBack (v : Value) : Prop where
  printable : Printable v
  same : reread v = v

theorem ReadsBack.parse_stringify {v : Value} (hv : ReadsBack v) : parse (stringify v) = .ok v := by
  have hparse := Json.parse_stringify hv.printable
    (fun ch (hch : ch ∈ []) => absurd hch List.not_mem_nil)
  rw [List.append_nil, hv.same] at hparse
  exact hparse

theorem parse_stringify_numberFree {v : Value} (hv : NumberFree v) :
    parse (stringify v) = .ok v :=
  ReadsBack.parse_stringify ⟨(exact_of_numberFree v hv).1, (exact_of_numberFree v hv).2⟩

theorem ReadsBack.string (s : Text) : ReadsBack (.string s) := ⟨trivial, rfl⟩

/-- Six significant digits are printed in full. -/
theorem ReadsBack.natural {n : Nat} (hfits : n < 2 ^ 53) (hsix : SixDigits n) :
    ReadsBack (.number (.finite false n)) := by
  have hn : Fits (n : Int) := hfits
  have hvalue : Value.number (.finite false n) = numberValue (n : Int) := by
    rw [numberValue, ofInt_eq hn, Int.natAbs_natCast]
    rfl
  have hexact : rereadInt n = exactly n := (rereadInt_eq_exactly hn).mpr hsix
  rw [hvalue]
  refine ⟨printable_numberValue hn, ?_⟩
  rw [reread_numberValue hn, hexact, numberValue, ofInt_eq hn]
  rfl

theorem ReadsBack.array {a : List Value} (ha : ∀ v ∈ a, ReadsBack v) : ReadsBack (.array a) := by
  have hitems : PrintableItems a ∧ rereadItems a = a := by
    induction a with
    | nil => exact ⟨trivial, rfl⟩
    | cons v vs ih =>
        obtain ⟨hprint, hsame⟩ := ih fun w hw => ha w (List.mem_cons_of_mem v hw)
        have hv := ha v List.mem_cons_self
        exact ⟨⟨hv.printable, hprint⟩, by rw [rereadItems, hv.same, hsame]⟩
  exact ⟨hitems.1, by rw [reread, hitems.2]⟩

theorem ReadsBack.object {o : Object} (ho : ∀ m ∈ o, ReadsBack m.2) (hsorted : Sorted o) :
    ReadsBack (.object o) := by
  have hmembers : PrintableMembers o ∧ rereadMembers o = o := by
    clear hsorted
    induction o with
    | nil => exact ⟨trivial, rfl⟩
    | cons m o ih =>
        obtain ⟨hprint, hsame⟩ := ih fun w hw => ho w (List.mem_cons_of_mem m hw)
        have hm := ho m List.mem_cons_self
        exact ⟨⟨hm.printable, hprint⟩, by rw [rereadMembers, hm.same, hsame]⟩
  exact ⟨⟨hmembers.1, hsorted⟩, by rw [reread, hmembers.2]⟩

end Json

open Json Rounding

/-! ### Integers of any size -/

/-- Rounding to a unit moves a magnitude by at most the unit. -/
theorem toUnit_bounds (e : ℤ) {q : ℚ} (hq : 0 ≤ q) :
    0 ≤ toUnit 2 e q ∧ toUnit 2 e q ≤ q + 2 ^ e ∧ q - 2 ^ e < toUnit 2 e q := by
  have hpos : (0 : ℚ) < (2 : ℕ) ^ e := by positivity
  have hfloor := floor_le_halfEven (q / ((2 : ℕ) : ℚ) ^ e)
  have hceil := halfEven_le_floor_add_one (q / ((2 : ℕ) : ℚ) ^ e)
  have hnonneg : 0 ≤ ⌊q / ((2 : ℕ) : ℚ) ^ e⌋ := Int.floor_nonneg.mpr (by positivity)
  have hle := Int.floor_le (q / ((2 : ℕ) : ℚ) ^ e)
  have hlt := Int.lt_floor_add_one (q / ((2 : ℕ) : ℚ) ^ e)
  have hquot : q / ((2 : ℕ) : ℚ) ^ e * ((2 : ℕ) : ℚ) ^ e = q := by field_simp
  generalize hround : halfEven (q / ((2 : ℕ) : ℚ) ^ e) = r at hfloor hceil
  generalize hfl : ⌊q / ((2 : ℕ) : ℚ) ^ e⌋ = f at *
  have hfr : (f : ℚ) ≤ r := by exact_mod_cast hfloor
  have hrf : (r : ℚ) ≤ f + 1 := by exact_mod_cast hceil
  have hf0 : (0 : ℚ) ≤ f := by exact_mod_cast hnonneg
  rw [toUnit, hround]
  refine ⟨mul_nonneg (hf0.trans hfr) hpos.le, ?_, ?_⟩
  · calc (r : ℚ) * ((2 : ℕ) : ℚ) ^ e ≤ (q / ((2 : ℕ) : ℚ) ^ e + 1) * ((2 : ℕ) : ℚ) ^ e :=
          mul_le_mul_of_nonneg_right (by linarith) hpos.le
      _ = q + 2 ^ e := by
          rw [add_mul, hquot, one_mul]
          norm_num
  · calc q - 2 ^ e = (q / ((2 : ℕ) : ℚ) ^ e - 1) * ((2 : ℕ) : ℚ) ^ e := by
          rw [sub_mul, hquot, one_mul]
          norm_num
      _ < (r : ℚ) * ((2 : ℕ) : ℚ) ^ e := mul_lt_mul_of_pos_right (by linarith) hpos

/-- Every 64-bit integer is printed as some number. -/
theorem printable_numberValue_wide {n : Int} (hn : n.natAbs ≤ 2 ^ 64) :
    Printable (numberValue n) := by
  rcases Nat.lt_or_ge n.natAbs (2 ^ 53) with hsmall | hbig
  · exact printable_numberValue hsmall
  have hlow : 53 ≤ Nat.log 2 n.natAbs := Nat.le_log_of_pow_le (by decide) hbig
  have hhigh : Nat.log 2 n.natAbs ≤ 64 := by
    calc Nat.log 2 n.natAbs ≤ Nat.log 2 (2 ^ 64) := Nat.log_mono_right hn
      _ = 64 := Nat.log_pow (by decide) 64
  have hunit : max (unitExp 2 53 (n.natAbs : ℚ)) (-1074) ≤ 12 := by
    rw [unitExp, Int.log_natCast]
    push_cast
    omega
  have hwidth : (2 : ℚ) ^ max (unitExp 2 53 (n.natAbs : ℚ)) (-1074) ≤ 2 ^ 12 := by
    calc (2 : ℚ) ^ max (unitExp 2 53 (n.natAbs : ℚ)) (-1074) ≤ 2 ^ (12 : ℤ) :=
          zpow_le_zpow_right₀ (by norm_num) hunit
      _ = 2 ^ 12 := by norm_num
  have hq : (0 : ℚ) ≤ n.natAbs := Nat.cast_nonneg _
  obtain ⟨-, hle, hgt⟩ := toUnit_bounds (max (unitExp 2 53 (n.natAbs : ℚ)) (-1074)) hq
  have hn' : ((n.natAbs : ℕ) : ℚ) ≤ 2 ^ 64 := by exact_mod_cast hn
  have hbig' : (2 : ℚ) ^ 53 ≤ (n.natAbs : ℕ) := by exact_mod_cast hbig
  unfold numberValue Printable Double.ofInt Double.round
  dsimp only
  generalize toUnit 2 (max (unitExp 2 53 (n.natAbs : ℚ)) (-1074)) (n.natAbs : ℚ) = r at hle hgt
  have hr : 1 ≤ r := by linarith
  have hr' : r < 10 ^ 20 := by
    calc r ≤ 2 ^ 64 + 2 ^ 12 := by linarith
      _ < 10 ^ 20 := by norm_num
  have hfinite : r < 2 ^ 1024 := by
    calc r < 10 ^ 20 := hr'
      _ < 2 ^ 67 := by norm_num
      _ < 2 ^ 1024 := pow_lt_pow_right₀ (by norm_num) (by norm_num)
  rw [if_pos hfinite]
  have hpos : 0 < r := by linarith
  have hlog : 0 ≤ Int.log 10 r := by
    apply (Int.zpow_le_iff_le_log (by decide) hpos).mp
    exact_mod_cast hr
  have hlog' : Int.log 10 r < 20 := by
    apply (Int.lt_zpow_iff_log_lt (by decide) hpos).mp
    exact_mod_cast hr'
  refine ⟨hpos.le, ?_⟩
  unfold unitExp
  omega

/-! ### Round trips -/

theorem natAbs_integers {e : Event} (hpc : ∀ pc, e.pc = some pc → pc.natAbs ≤ 2 ^ 63)
    {name : String} {n : Int} (hn : e.HasInteger name n) : n.natAbs ≤ 2 ^ 64 := by
  have hword : ∀ {field : Option (BitVec 64)} {m : Int},
      some m = field.map (fun w => (w.toNat : Int)) → m.natAbs ≤ 2 ^ 64 := by
    intro field m hm
    obtain ⟨w, -, rfl⟩ := Option.map_eq_some_iff.mp hm.symm
    have := w.isLt
    omega
  simp only [Event.HasInteger, Event.integers, List.mem_cons, Prod.mk.injEq, List.not_mem_nil,
    or_false] at hn
  rcases hn with ⟨-, h⟩ | ⟨-, h⟩ | ⟨-, h⟩ | ⟨-, h⟩ | ⟨-, h⟩ | ⟨-, h⟩ | ⟨-, h⟩ | ⟨-, h⟩ | ⟨-, h⟩
    | ⟨-, h⟩ | ⟨-, h⟩ | ⟨-, h⟩
  case inl =>
    obtain rfl := Option.some.inj h
    have := e.ts.isLt
    omega
  case inr.inr.inr.inr.inr.inr.inr.inr.inr.inl =>
    have := hpc n h.symm
    omega
  all_goals exact hword h

/-- A text carried in an event comes back with the line. -/
theorem parse_event_extra {e : Event} (hpc : ∀ pc, e.pc = some pc → pc.natAbs ≤ 2 ^ 63) {s : Text}
    (hs : e.extraJson = some s) :
    ∃ line, parse (eventToJsonLine e) = .ok line
      ∧ line.get? "extra".toList = some (.string s) := by
  obtain ⟨line, hparse, hget⟩ := parse_event_members fun name n hn =>
    printable_numberValue_wide (natAbs_integers hpc hn)
  refine ⟨line, hparse, ?_⟩
  have htext : ("extra", some s) ∈ e.texts := by
    rw [← hs]
    simp [Event.texts]
  have hmem : ("extra".toList, Value.string s) ∈ presentMembers e.members :=
    mem_presentMembers.mpr ⟨"extra", rfl, mem_members.mpr (.inl (List.mem_map.mpr ⟨_, htext, rfl⟩))⟩
  rw [hget, find?_of_mem (nodup_keys_members e) hmem]
  rfl

/-- **Parsing undoes printing**, and a document carried in an event is recovered with it. -/
theorem parse_undoes_stringify {v : Value} (hv : NumberFree v) :
    parse (stringify v) = .ok v ∧
      ∀ (e : Event) (s : Text), (∀ pc, e.pc = some pc → pc.natAbs ≤ 2 ^ 63) →
        e.extraJson = some s → ∃ line, parse (eventToJsonLine e) = .ok line
          ∧ line.get? "extra".toList = some (.string s) :=
  ⟨parse_stringify_numberFree hv, fun _ _ hpc hs => parse_event_extra hpc hs⟩

theorem parse_undoes_stringify_nested :
    parse (stringify (.object [("a\"\n".toList, .array [.null, .bool true, .object []])]))
        = .ok (.object [("a\"\n".toList, .array [.null, .bool true, .object []])])
      ∧ ∃ line, parse (eventToJsonLine
          { ts := 2 ^ 64 - 1, extraJson := some (stringify (.array [.string "\\".toList])) })
            = .ok line
        ∧ line.get? "extra".toList = some (.string (stringify (.array [.string "\\".toList]))) := by
  have hplain : NumberFree (.object [("a\"\n".toList, .array [.null, .bool true, .object []])]) :=
    ⟨⟨⟨trivial, trivial, ⟨trivial, List.Pairwise.nil⟩, trivial⟩, trivial⟩,
      List.pairwise_singleton ..⟩
  obtain ⟨hparse, hevent⟩ := parse_undoes_stringify hplain
  exact ⟨hparse, hevent _ _ (fun pc hpc => nomatch hpc) rfl⟩

end ProtoGpu
