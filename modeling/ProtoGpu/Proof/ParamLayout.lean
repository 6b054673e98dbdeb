import ProtoGpu.Shim.KernelArgs

/-!
# The layout of the parameters

The parser gives each parameter the first aligned offset behind the ones before it, in 32 bits. Two
parameters share a byte only when the layout has wrapped, and which sequences of types make it wrap
is decided by their sizes alone.
-/

namespace ProtoGpu

def ParamType.bytes : ParamType → Nat
  | .u32 => 4
  | .u64 => 8

/-- The descriptor of a declaration, before it has an offset. -/
def rawParam (name : String) (t : ParamType) : ParamDesc where
  name := name
  type := t
  size := BitVec.ofNat 32 t.bytes
  align := BitVec.ofNat 32 t.bytes

theorem ParamType.bytes_cases (t : ParamType) : t.bytes = 4 ∨ t.bytes = 8 := by
  cases t with
  | u32 => exact .inl rfl
  | u64 => exact .inr rfl

theorem toNat_bytes (t : ParamType) : (BitVec.ofNat 32 t.bytes).toNat = t.bytes := by
  cases t <;> rfl

namespace ParamDesc

def start (p : ParamDesc) : Nat := p.offset.toNat

def stop (p : ParamDesc) : Nat := p.offset.toNat + p.size.toNat

/-- The parameters share no byte. -/
def Apart (p q : ParamDesc) : Prop := p.stop ≤ q.start ∨ q.stop ≤ p.start

/-- Size and alignment are those of the type. -/
structure Natural (p : ParamDesc) : Prop where
  size : p.size = BitVec.ofNat 32 p.type.bytes
  align : p.align = BitVec.ofNat 32 p.type.bytes

theorem Natural.stop_eq {p : ParamDesc} (h : p.Natural) : p.stop = p.start + p.type.bytes := by
  rw [stop, start, h.size, toNat_bytes]

end ParamDesc

theorem natural_rawParam (name : String) (t : ParamType) : (rawParam name t).Natural := ⟨rfl, rfl⟩

/-! ### The offset of one more -/

/-- Where a parameter of the type begins when the ones before it end at `e`. -/
def alignedTo (t : ParamType) (e : Nat) : Nat := (e + t.bytes - 1) / t.bytes * t.bytes

theorem toNat_alignUpU32 (v : BitVec 32) (t : ParamType) :
    (alignUpU32 v (BitVec.ofNat 32 t.bytes)).toNat = alignedTo t v.toNat % 2 ^ 32 := by
  unfold alignUpU32 alignedTo
  have hmod : (v % BitVec.ofNat 32 t.bytes).toNat = v.toNat % t.bytes := by
    rw [BitVec.toNat_umod, toNat_bytes]
  have hlt := v.isLt
  rw [if_neg (by cases t <;> decide)]
  dsimp only
  split
  · next hzero =>
    rw [hzero] at hmod
    have hzero' : v.toNat % t.bytes = 0 := hmod.symm
    rcases t.bytes_cases with ht | ht <;> rw [ht] at hzero' ⊢ <;> omega
  · next hnonzero =>
    have hpos : v.toNat % t.bytes ≠ 0 := by
      intro h
      rw [h] at hmod
      exact hnonzero (BitVec.eq_of_toNat_eq hmod)
    have hle :
        v.toNat % t.bytes < t.bytes := Nat.mod_lt _ (by rcases t.bytes_cases with ht | ht <;> omega)
    have hsub : (BitVec.ofNat 32 t.bytes - v % BitVec.ofNat 32 t.bytes).toNat
        = t.bytes - v.toNat % t.bytes := by
      rw [BitVec.toNat_sub_of_le (BitVec.le_def.mpr (by rw [hmod, toNat_bytes]; omega)), hmod,
        toNat_bytes]
    rw [BitVec.toNat_add, hsub]
    congr 1
    rcases t.bytes_cases with ht | ht <;> rw [ht] at hpos ⊢ <;> omega

theorem paramsEnd_snoc (params : List ParamDesc) (p : ParamDesc) :
    paramsEnd (params ++ [p])
      = if paramsEnd params < p.offset + p.size then p.offset + p.size else paramsEnd params := by
  rw [paramsEnd, List.foldl_append]
  rfl

theorem prefix_addParams (params rest : List ParamDesc) :
    params <+: rest.foldl addParam params := by
  induction rest generalizing params with
  | nil => exact List.prefix_rfl
  | cons p rest ih => exact (List.prefix_append ..).trans (ih (addParam params p))

/-! ### Layouts that have not wrapped -/

/-- Parameters laid out behind each other, the last one ending at `e`. -/
structure Laid (params : List ParamDesc) (e : Nat) : Prop where
  ends : (paramsEnd params).toNat = e
  apart : params.Pairwise ParamDesc.Apart
  below : ∀ p ∈ params, p.stop ≤ e
  room : e < 2 ^ 32
  quad : e % 4 = 0
  first : 0 < e → ∃ p ∈ params, p.start = 0 ∧ 4 ≤ p.stop

theorem Laid.nil : Laid [] 0 :=
  ⟨rfl, .nil, (fun _ hp => nomatch hp), by decide, rfl, fun h => absurd h (Nat.lt_irrefl 0)⟩

variable {params : List ParamDesc} {e : Nat} {p : ParamDesc}

theorem Laid.start_next (h : Laid params e) (hp : p.Natural) :
    (alignUpU32 (paramsEnd params) p.align).toNat = alignedTo p.type e % 2 ^ 32 := by
  rw [hp.align, toNat_alignUpU32, h.ends]

theorem alignedTo_bounds (t : ParamType) {e : Nat} (hquad : e % 4 = 0) :
    e ≤ alignedTo t e ∧ alignedTo t e < e + t.bytes ∧ alignedTo t e % 4 = 0 ∧
      alignedTo t e % t.bytes = 0 := by
  unfold alignedTo
  rcases t.bytes_cases with ht | ht <;> rw [ht] <;> omega

/-- One more parameter that ends below `2 ^ 32`. -/
theorem Laid.snoc (h : Laid params e) (hp : p.Natural)
    (hroom : alignedTo p.type e + p.type.bytes < 2 ^ 32) :
    Laid (addParam params p) (alignedTo p.type e + p.type.bytes) := by
  obtain ⟨hle, -, hquad, -⟩ := alignedTo_bounds p.type h.quad
  have hstart := h.start_next hp
  rw [Nat.mod_eq_of_lt (by omega)] at hstart
  have hpos : 4 ≤ p.type.bytes ∧ p.type.bytes % 4 = 0 := by
    rcases p.type.bytes_cases with ht | ht <;> omega
  have hsum : (alignUpU32 (paramsEnd params) p.align + p.size).toNat
      = alignedTo p.type e + p.type.bytes := by
    rw [BitVec.toNat_add, hstart, hp.size, toNat_bytes, Nat.mod_eq_of_lt hroom]
  have hnext : ∀ q : ParamDesc, q = { p with offset := alignUpU32 (paramsEnd params) p.align } →
      q.start = alignedTo p.type e ∧ q.stop = alignedTo p.type e + p.type.bytes := by
    rintro q rfl
    refine ⟨hstart, ?_⟩
    rw [ParamDesc.stop, hstart, hp.size, toNat_bytes]
  constructor
  · rw [addParam, paramsEnd_snoc]
    dsimp only
    rw [if_pos (BitVec.lt_def.mpr (by rw [hsum, h.ends]; omega)), hsum]
  · rw [addParam, List.pairwise_append]
    refine ⟨h.apart, List.pairwise_singleton .., fun q hq r hr => .inl ?_⟩
    rw [(hnext r (List.mem_singleton.mp hr)).1]
    exact (h.below q hq).trans hle
  · intro q hq
    rcases List.mem_append.mp hq with hq | hq
    · exact (h.below q hq).trans (by omega)
    · exact (hnext q (List.mem_singleton.mp hq)).2.le
  · exact hroom
  · omega
  · intro _
    rcases Nat.eq_zero_or_pos e with hzero | hbehind
    · refine ⟨_, List.mem_append_right _ (List.mem_singleton_self _), ?_⟩
      obtain ⟨hs, ht⟩ := hnext _ rfl
      have hat : alignedTo p.type e = 0 := by
        subst hzero
        unfold alignedTo
        rcases p.type.bytes_cases with ht | ht <;> rw [ht]
      exact ⟨hs.trans hat, by omega⟩
    · obtain ⟨q, hq, hfirst⟩ := h.first hbehind
      exact ⟨q, List.mem_append_left _ hq, hfirst⟩

/-! ### Layouts that wrap -/

/-- Parameters of the types, behind others that end at `e`, get ranges of their own: each ends below
`2 ^ 32`, but the last may end there, and so may a `.u64` with padding before it and one `.u32`
behind it. -/
def fitsFrom : Nat → List ParamType → Bool
  | _, [] => true
  | e, t :: rest =>
      let stop := alignedTo t e + t.bytes
      if stop < 2 ^ 32 then fitsFrom stop rest
      else stop = 2 ^ 32 ∧ (rest = [] ∨ (alignedTo t e ≠ e ∧ rest = [.u32]))

/-- The layout has a parameter that shares a byte with another. -/
theorem not_apart_of_meets {q : ParamDesc} (hp : p ∈ params) (hstart : p.start < q.stop)
    (hstop : q.start < p.stop) : ¬ (params ++ [q]).Pairwise ParamDesc.Apart := by
  intro hapart
  rw [List.pairwise_append] at hapart
  rcases hapart.2.2 p hp q (List.mem_singleton_self q) with h | h <;> omega

/-- The next parameter ends behind `2 ^ 32`: it wraps onto the first one. -/
theorem Laid.not_apart_of_gt (h : Laid params e) (hp : p.Natural)
    (hgt : 2 ^ 32 < alignedTo p.type e + p.type.bytes) :
    ¬ (addParam params p).Pairwise ParamDesc.Apart := by
  obtain ⟨hle, hlt, hquad, hmod⟩ := alignedTo_bounds p.type h.quad
  have hroom := h.room
  have hquad' := h.quad
  have hat : alignedTo p.type e = 2 ^ 32 := by
    rcases p.type.bytes_cases with ht | ht <;> rw [ht] at hgt hlt hmod <;> omega
  have hstart := h.start_next hp
  rw [hat, Nat.mod_self] at hstart
  have hbehind : 0 < e := by
    rcases p.type.bytes_cases with ht | ht <;> rw [ht] at hlt <;> omega
  obtain ⟨q, hq, hfirst, hstop⟩ := h.first hbehind
  have hpos : 0 < p.type.bytes := by rcases p.type.bytes_cases with ht | ht <;> omega
  refine not_apart_of_meets hq ?_ ?_
  · rw [hfirst, ParamDesc.stop, hstart, hp.size, toNat_bytes]
    omega
  · rw [ParamDesc.start, hstart]
    omega

/-- The next parameter ends at `2 ^ 32`: the layout still ends where it did. -/
theorem Laid.full (h : Laid params e) (hp : p.Natural)
    (hfull : alignedTo p.type e + p.type.bytes = 2 ^ 32) :
    (addParam params p).Pairwise ParamDesc.Apart ∧ (paramsEnd (addParam params p)).toNat = e ∧
      ∃ q ∈ addParam params p, q.start = alignedTo p.type e ∧ q.stop = 2 ^ 32 := by
  obtain ⟨hle, -, -, -⟩ := alignedTo_bounds p.type h.quad
  have hpos : 0 < p.type.bytes := by rcases p.type.bytes_cases with ht | ht <;> omega
  have hstart := h.start_next hp
  rw [Nat.mod_eq_of_lt (by omega)] at hstart
  have hsum : (alignUpU32 (paramsEnd params) p.align + p.size) = 0 := by
    apply BitVec.eq_of_toNat_eq
    rw [BitVec.toNat_add, hstart, hp.size, toNat_bytes, hfull]
    rfl
  refine ⟨?_, ?_, ⟨_, List.mem_append_right _ (List.mem_singleton_self _), hstart, ?_⟩⟩
  · rw [addParam, List.pairwise_append]
    refine ⟨h.apart, List.pairwise_singleton .., fun q hq r hr => .inl ?_⟩
    obtain rfl := List.mem_singleton.mp hr
    exact (h.below q hq).trans (hle.trans hstart.ge)
  · rw [addParam, paramsEnd_snoc]
    dsimp only
    rw [hsum]
    split
    · next hlt => exact absurd hlt BitVec.not_lt_zero
    · exact h.ends
  · rw [ParamDesc.stop, hstart, hp.size, toNat_bytes, hfull]

theorem start_addParam (params : List ParamDesc) {q : ParamDesc} (hq : q.Natural) {e : Nat}
    (hends : (paramsEnd params).toNat = e) :
    (alignUpU32 (paramsEnd params) q.align).toNat = alignedTo q.type e % 2 ^ 32 := by
  rw [hq.align, toNat_alignUpU32, hends]

/-- Behind a layout that ends at `2 ^ 32`, a parameter meets the last one or the first, unless it is
a `.u32` and the last one has padding before it. -/
theorem Laid.not_apart_behind_full (h : Laid params e) (hp : p.Natural)
    (hfull : alignedTo p.type e + p.type.bytes = 2 ^ 32) {q : ParamDesc} (hq : q.Natural)
    (hno : ¬ (alignedTo p.type e ≠ e ∧ q.type = .u32)) :
    ¬ (addParam (addParam params p) q).Pairwise ParamDesc.Apart := by
  obtain ⟨-, hends, x, hx, hxstart, hxstop⟩ := h.full hp hfull
  have hstart := start_addParam (addParam params p) hq hends
  obtain ⟨hle, hlt, -, hmod⟩ := alignedTo_bounds p.type h.quad
  obtain ⟨hle', hlt', -, hmod'⟩ := alignedTo_bounds q.type h.quad
  have hquad := h.quad
  by_cases hsame : alignedTo q.type e = alignedTo p.type e
  · -- the two begin at the same offset
    rw [hsame, Nat.mod_eq_of_lt (by rcases p.type.bytes_cases with ht | ht <;> omega)] at hstart
    have hpos : 0 < q.type.bytes := by rcases q.type.bytes_cases with ht | ht <;> omega
    refine not_apart_of_meets hx ?_ ?_
    · rw [hxstart, ParamDesc.stop, hstart, hq.size, toNat_bytes]
      omega
    · rw [hxstop, ParamDesc.start, hstart]
      rcases p.type.bytes_cases with ht | ht <;> omega
  · -- the new one wraps to the first
    have hwraps : alignedTo q.type e = 2 ^ 32 ∧ 0 < e := by
      cases hpt : p.type with
      | u32 =>
        cases hqt : q.type with
        | u32 => exact absurd (by rw [hpt, hqt]) hsame
        | u64 =>
          rw [hpt] at hle hlt hmod hfull hsame
          rw [hqt] at hle' hlt' hmod' hsame
          simp only [ParamType.bytes] at *
          omega
      | u64 =>
        cases hqt : q.type with
        | u64 => exact absurd (by rw [hpt, hqt]) hsame
        | u32 =>
          rw [hpt] at hle hlt hmod hfull hsame hno
          rw [hqt] at hle' hlt' hmod' hsame hno
          simp only [ParamType.bytes] at *
          have hpad : alignedTo .u64 e = e := by
            by_contra hne
            exact hno ⟨hne, trivial⟩
          omega
    obtain ⟨y, hy, hfirst, hstop⟩ := h.first hwraps.2
    rw [hwraps.1, Nat.mod_self] at hstart
    have hpos : 0 < q.type.bytes := by rcases q.type.bytes_cases with ht | ht <;> omega
    refine not_apart_of_meets (List.mem_append_left _ hy) ?_ ?_
    · rw [hfirst, ParamDesc.stop, hstart, hq.size, toNat_bytes]
      omega
    · rw [ParamDesc.start, hstart]
      omega

/-- The one parameter that still fits behind a layout that ends at `2 ^ 32` takes the padding. -/
theorem Laid.apart_in_padding (h : Laid params e) (hp : p.Natural)
    (hfull : alignedTo p.type e + p.type.bytes = 2 ^ 32) {q : ParamDesc} (hq : q.Natural)
    (hpad : alignedTo p.type e ≠ e) (htype : q.type = .u32) :
    (addParam (addParam params p) q).Pairwise ParamDesc.Apart ∧
      (paramsEnd (addParam (addParam params p) q)).toNat = alignedTo p.type e := by
  obtain ⟨hapart, hends, -⟩ := h.full hp hfull
  have hstart := start_addParam (addParam params p) hq hends
  obtain ⟨hle, hlt, -, hmod⟩ := alignedTo_bounds p.type h.quad
  have hquad := h.quad
  have hroom := h.room
  have hp64 : p.type = .u64 := by
    cases hpt : p.type with
    | u64 => rfl
    | u32 =>
      rw [hpt] at hle hlt hmod hpad
      simp only [ParamType.bytes] at hlt hmod
      omega
  rw [hp64] at hle hlt hmod hpad hfull ⊢
  simp only [ParamType.bytes] at hlt hmod hfull
  have hat : alignedTo .u64 e = e + 4 := by omega
  have hself : alignedTo .u32 e = e := by
    simp only [alignedTo, ParamType.bytes]
    omega
  rw [htype, hself, Nat.mod_eq_of_lt hroom] at hstart
  have hsize : q.size.toNat = 4 := by
    rw [hq.size, htype]
    rfl
  have hsum : (alignUpU32 (paramsEnd (addParam params p)) q.align + q.size).toNat = e + 4 := by
    rw [BitVec.toNat_add, hstart, hsize, Nat.mod_eq_of_lt (by omega)]
  constructor
  · have hpstart := h.start_next hp
    rw [hp64, Nat.mod_eq_of_lt (by omega), hat] at hpstart
    rw [addParam, List.pairwise_append]
    refine ⟨hapart, List.pairwise_singleton .., fun x hx y hy => ?_⟩
    obtain rfl := List.mem_singleton.mp hy
    rcases List.mem_append.mp hx with hx | hx
    · exact .inl ((h.below x hx).trans hstart.ge)
    · obtain rfl := List.mem_singleton.mp hx
      refine .inr ?_
      rw [ParamDesc.stop, ParamDesc.start, hstart, hsize, hpstart]
  · rw [addParam, paramsEnd_snoc]
    dsimp only
    rw [if_pos (BitVec.lt_def.mpr (by rw [hsum, hends]; omega)), hsum, hat]

/-- Nothing fits behind the parameter that took the padding. -/
theorem Laid.not_apart_behind_padding (h : Laid params e) (hp : p.Natural)
    (hfull : alignedTo p.type e + p.type.bytes = 2 ^ 32) {q r : ParamDesc} (hq : q.Natural)
    (hr : r.Natural) (hpad : alignedTo p.type e ≠ e) (htype : q.type = .u32) :
    ¬ (addParam (addParam (addParam params p) q) r).Pairwise ParamDesc.Apart := by
  obtain ⟨-, -, x, hx, hxstart, hxstop⟩ := h.full hp hfull
  have hends := (h.apart_in_padding hp hfull hq hpad htype).2
  have hstart := start_addParam _ hr hends
  obtain ⟨hle, hlt, -, hmod⟩ := alignedTo_bounds p.type h.quad
  have hquad := h.quad
  have hpos : 0 < p.type.bytes := by rcases p.type.bytes_cases with ht | ht <;> omega
  have hsame : alignedTo r.type (alignedTo p.type e) = alignedTo p.type e := by
    have hp64 : alignedTo p.type e % 8 = 0 := by
      rcases p.type.bytes_cases with ht | ht <;> rw [ht] at hlt hmod <;> omega
    unfold alignedTo at hp64 ⊢
    rcases r.type.bytes_cases with ht | ht <;> rw [ht] <;> omega
  rw [hsame, Nat.mod_eq_of_lt (by omega)] at hstart
  have hpos' : 0 < r.type.bytes := by rcases r.type.bytes_cases with ht | ht <;> omega
  refine not_apart_of_meets (List.mem_append_left _ hx) ?_ ?_
  · rw [hxstart, ParamDesc.stop, hstart, hr.size, toNat_bytes]
    omega
  · rw [hxstop, ParamDesc.start, hstart]
    omega

theorem not_apart_addParams {rest : List ParamDesc} (h : ¬ params.Pairwise ParamDesc.Apart) :
    ¬ (rest.foldl addParam params).Pairwise ParamDesc.Apart :=
  fun hapart => h (hapart.sublist (prefix_addParams params rest).sublist)

/-- The parameters share no byte exactly when their types fit. -/
theorem Laid.apart_iff (h : Laid params e) {rest : List ParamDesc} (hrest : ∀ p ∈ rest, p.Natural) :
    (rest.foldl addParam params).Pairwise ParamDesc.Apart
      ↔ fitsFrom e (rest.map ParamDesc.type) = true := by
  induction rest generalizing params e with
  | nil => exact iff_of_true h.apart rfl
  | cons p rest ih =>
    have hp := hrest p List.mem_cons_self
    have hrest' : ∀ q ∈ rest, q.Natural := fun q hq => hrest q (List.mem_cons_of_mem p hq)
    rw [List.map_cons, fitsFrom, List.foldl_cons]
    rcases Nat.lt_trichotomy (alignedTo p.type e + p.type.bytes) (2 ^ 32) with hlt | hfull | hgt
    · rw [if_pos hlt]
      exact ih (h.snoc hp hlt) hrest'
    · rw [if_neg (by omega), decide_eq_true_iff]
      cases rest with
      | nil => exact iff_of_true (h.full hp hfull).1 ⟨hfull, .inl rfl⟩
      | cons q rest =>
        have hq := hrest' q List.mem_cons_self
        rw [List.foldl_cons]
        by_cases hpad : alignedTo p.type e ≠ e ∧ q.type = .u32
        · cases rest with
          | nil =>
            refine iff_of_true (h.apart_in_padding hp hfull hq hpad.1 hpad.2).1 ?_
            exact ⟨hfull, .inr ⟨hpad.1, by rw [List.map_cons, hpad.2]; rfl⟩⟩
          | cons r rest =>
            have hr := hrest' r (List.mem_cons_of_mem q List.mem_cons_self)
            rw [List.foldl_cons]
            refine iff_of_false (not_apart_addParams
              (h.not_apart_behind_padding hp hfull hq hr hpad.1 hpad.2)) ?_
            simp
        · refine iff_of_false (not_apart_addParams (h.not_apart_behind_full hp hfull hq hpad)) ?_
          rintro ⟨-, hnil | ⟨hne, hone⟩⟩
          · cases hnil
          · exact hpad ⟨hne, (List.cons.inj hone).1⟩
    · rw [if_neg (by omega), decide_eq_true_iff]
      refine iff_of_false (not_apart_addParams (h.not_apart_of_gt hp hgt)) ?_
      rintro ⟨heq, -⟩
      omega

end ProtoGpu
