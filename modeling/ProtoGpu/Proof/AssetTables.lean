import ProtoGpu.AssetTables
import ProtoGpu.Lib.Throwing
import ProtoGpu.Proof.HostBounds

/-!
# Loaded tables

With `strict_keys` the descriptor loader tests the keys of every object it reads before it reads
them. It then loads the same table from a document with known keys only, and throws on the others
that it could load without the option. Every table of descriptors is loaded from the document that
writes it down.
-/

namespace ProtoGpu

open Json (Value Object fieldAt find? stringify)
open Throwing (bind_ok)

variable {α β : Type} {platform : Platform}

/-! ### Stricter computations -/

/-- A key, where it stands and the keys that may stand there. -/
structure KeyReport where
  key : Text
  allowed : List String
  place : String

def KeyReport.message (platform : Platform) (r : KeyReport) : String :=
  "DescriptorRegistry: unknown key '" ++ String.ofList r.key ++ "' at " ++ r.place
    ++ "; allowed keys: [" ++ String.intercalate ", " (platform.visit r.allowed) ++ "]"

/-- Where the plain computation returns, the strict one returns the same if `known` holds, and
reports one of the unknown keys otherwise. It returns nowhere else. -/
structure Stricter (platform : Platform) (known : Prop) (unknown : KeyReport → Prop)
    (plain strict : Except String α) : Prop where
  sound : ∀ a, strict = .ok a → plain = .ok a
  same : ∀ a, plain = .ok a → known → strict = .ok a
  refuses : ∀ a, plain = .ok a → ¬ known → ∃ r, unknown r ∧ strict = .error (r.message platform)

namespace Stricter

variable {known known' : Prop} {unknown unknown' : KeyReport → Prop}
  {plain strict : Except String α}

theorem refl (x : Except String α) : Stricter platform True unknown x x :=
  ⟨fun _ => id, fun _ h _ => h, fun _ _ h => absurd trivial h⟩

theorem congr (h : Stricter platform known unknown plain strict) (hiff : known ↔ known') :
    Stricter platform known' unknown plain strict := by
  rwa [← propext hiff]

theorem mono (h : Stricter platform known unknown plain strict)
    (hunknown : ∀ r, unknown r → unknown' r) : Stricter platform known unknown' plain strict := by
  refine ⟨h.sound, h.same, fun a ha hknown => ?_⟩
  obtain ⟨r, hr, herror⟩ := h.refuses a ha hknown
  exact ⟨r, hunknown r hr, herror⟩

theorem ok_iff (h : Stricter platform known unknown plain strict) (a : α) :
    strict = .ok a ↔ plain = .ok a ∧ known := by
  constructor
  · intro hstrict
    have hplain := h.sound a hstrict
    refine ⟨hplain, ?_⟩
    by_contra hknown
    obtain ⟨r, -, herror⟩ := h.refuses a hplain hknown
    rw [herror] at hstrict
    cases hstrict
  · exact fun hplain => h.same a hplain.1 hplain.2

/-- In sequence both parts must know their keys. -/
theorem bind {f g : α → Except String β} (h : Stricter platform known unknown plain strict)
    (hnext : ∀ a, plain = .ok a → Stricter platform known' unknown (f a) (g a)) :
    Stricter platform (known ∧ known') unknown (plain >>= f) (strict >>= g) := by
  constructor
  · intro b hb
    obtain ⟨a, ha, hg⟩ := bind_ok.mp hb
    have hplain := h.sound a ha
    exact bind_ok.mpr ⟨a, hplain, (hnext a hplain).sound b hg⟩
  · intro b hb hknown
    obtain ⟨a, ha, hf⟩ := bind_ok.mp hb
    exact bind_ok.mpr ⟨a, h.same a ha hknown.1, (hnext a ha).same b hf hknown.2⟩
  · intro b hb hunknown
    obtain ⟨a, ha, hf⟩ := bind_ok.mp hb
    by_cases hknown : known
    · have hunknown' : ¬ known' := fun hknown' => hunknown ⟨hknown, hknown'⟩
      obtain ⟨r, hr, herror⟩ := (hnext a ha).refuses b hf hunknown'
      refine ⟨r, hr, ?_⟩
      rw [h.same a ha hknown]
      exact herror
    · obtain ⟨r, hr, herror⟩ := h.refuses a ha hknown
      refine ⟨r, hr, ?_⟩
      rw [herror]
      rfl

/-- A first part that neither checks keys nor differs. -/
theorem after {f g : α → Except String β} (x : Except String α)
    (hnext : ∀ a, x = .ok a → Stricter platform known unknown (f a) (g a)) :
    Stricter platform known unknown (x >>= f) (x >>= g) :=
  ((refl x).bind hnext).congr (iff_of_eq (true_and known))

/-- A last part that neither checks keys nor differs. -/
theorem before {f : α → Except String β} (h : Stricter platform known unknown plain strict) :
    Stricter platform known unknown (plain >>= f) (strict >>= f) :=
  (h.bind fun a _ => refl (f a)).congr (iff_of_eq (and_true known))

end Stricter

/-! ### Known keys -/

def KnownIn (allowed : List String) (o : Object) : Prop := ∀ kv ∈ o, isKnownKey allowed kv.1 = true

/-- The report names a key of the object that may not stand there. -/
structure UnknownIn (obj : Object) (allowed : List String) (place : String) (r : KeyReport) :
    Prop where
  stands : ∃ v, (r.key, v) ∈ obj
  unknown : isKnownKey allowed r.key = false
  allowed : r.allowed = allowed
  place : r.place = place

theorem stricter_checkKeys (platform : Platform) (obj : Object) (allowed : List String)
    (place : String) :
    Stricter platform (KnownIn allowed obj) (UnknownIn obj allowed place)
      (checkKeys platform false obj allowed place) (checkKeys platform true obj allowed place) := by
  have hplain : checkKeys platform false obj allowed place = .ok () := rfl
  have hstrict : checkKeys platform true obj allowed place
      = validateKnownKeys platform obj allowed place := rfl
  rw [hplain, hstrict, validateKnownKeys]
  cases hfind : obj.find? fun kv => !isKnownKey allowed kv.1 with
  | none =>
      have hknown : KnownIn allowed obj := fun kv hkv => by
        simpa using List.find?_eq_none.mp hfind kv hkv
      exact ⟨fun _ => id, fun _ h _ => h, fun _ _ h => absurd hknown h⟩
  | some kv =>
      have hmem : kv ∈ obj := List.mem_of_find?_eq_some hfind
      have hkv : isKnownKey allowed kv.1 = false := by simpa using List.find?_some hfind
      refine ⟨fun a ha => (by cases ha), fun a _ hknown => ?_, fun a _ _ => ?_⟩
      · rw [hknown kv hmem] at hkv
        cases hkv
      · exact ⟨⟨kv.1, allowed, place⟩, ⟨⟨kv.2, hmem⟩, hkv, rfl, rfl⟩, rfl⟩

/-- The keys of a micro-op, when it is an object. -/
def UopKnown (uv : Value) : Prop := ∀ uo, uv.asObject = .ok uo → KnownIn uopKeys uo

/-- The keys of an instruction and of its micro-ops. -/
def InstKnown (iv : Value) : Prop :=
  ∀ io, iv.asObject = .ok io → KnownIn instKeys io
    ∧ ∀ v us, fieldAt io "uops" = .ok v → v.asArray = .ok us → ∀ uv ∈ us, UopKnown uv

/-- The keys of the document and of its instructions. -/
def RootKnown (root : Value) : Prop :=
  ∀ obj, root.asObject = .ok obj → KnownIn rootKeys obj
    ∧ ∀ v insts, fieldAt obj "insts" = .ok v → v.asArray = .ok insts → ∀ iv ∈ insts, InstKnown iv

/-- An unknown key of a micro-op. -/
def UopUnknown (i j : Nat) (uv : Value) (r : KeyReport) : Prop :=
  ∃ uo, uv.asObject = .ok uo ∧ UnknownIn uo uopKeys (uopPlace i j) r

/-- An unknown key of an instruction or of one of its micro-ops. -/
def InstUnknown (i : Nat) (iv : Value) (r : KeyReport) : Prop :=
  ∃ io, iv.asObject = .ok io ∧ (UnknownIn io instKeys (instPlace i) r
    ∨ ∃ v us j uv, fieldAt io "uops" = .ok v ∧ v.asArray = .ok us ∧ us[j]? = some uv
      ∧ UopUnknown i j uv r)

/-- An unknown key of the document or of one of its instructions. -/
def RootUnknown (root : Value) (r : KeyReport) : Prop :=
  ∃ obj, root.asObject = .ok obj ∧ (UnknownIn obj rootKeys "root" r
    ∨ ∃ v insts i iv, fieldAt obj "insts" = .ok v ∧ v.asArray = .ok insts ∧ insts[i]? = some iv
      ∧ InstUnknown i iv r)

theorem stricter_loadUop (platform : Platform) (i j : Nat) (uv : Value) :
    Stricter platform (UopKnown uv) (UopUnknown i j uv) (loadUop platform false i j uv)
      (loadUop platform true i j uv) := by
  refine .after _ fun uo huo => ?_
  have hknown : KnownIn uopKeys uo ↔ UopKnown uv := by
    refine ⟨fun h uo' huo' => ?_, fun h => h uo huo⟩
    rw [huo] at huo'
    cases huo'
    exact h
  exact (((stricter_checkKeys platform uo uopKeys (uopPlace i j)).congr hknown).mono
    fun r hr => ⟨uo, huo, hr⟩).before

theorem stricter_loadUops (platform : Platform) (i j : Nat) (uvs : List Value) :
    Stricter platform (∀ uv ∈ uvs, UopKnown uv)
      (fun r => ∃ k uv, uvs[k]? = some uv ∧ UopUnknown i (j + k) uv r)
      (loadUops platform false i j uvs) (loadUops platform true i j uvs) := by
  induction uvs generalizing j with
  | nil => exact (Stricter.refl _).congr (by simp)
  | cons uv uvs ih =>
      have hhead : ∀ r, UopUnknown i j uv r →
          ∃ k uv', (uv :: uvs)[k]? = some uv' ∧ UopUnknown i (j + k) uv' r :=
        fun r hr => ⟨0, uv, rfl, hr⟩
      have htail : ∀ r, (∃ k uv', uvs[k]? = some uv' ∧ UopUnknown i (j + 1 + k) uv' r) →
          ∃ k uv', (uv :: uvs)[k]? = some uv' ∧ UopUnknown i (j + k) uv' r := by
        rintro r ⟨k, uv', huv', hr⟩
        exact ⟨k + 1, uv', huv', by rwa [← Nat.add_assoc, Nat.add_right_comm]⟩
      have hfirst := (stricter_loadUop platform i j uv).mono hhead
      have hrest := (ih (j + 1)).mono htail
      apply (hfirst.bind fun u _ => hrest.before).congr
      exact List.forall_mem_cons.symm

/-- The array a field holds is the only one it holds. -/
theorem forall_fieldArray {o : Object} {key : String} {v : Value} {vs : List Value}
    {P : List Value → Prop} (hv : fieldAt o key = .ok v) (hvs : v.asArray = .ok vs) :
    (∀ v' vs', fieldAt o key = .ok v' → v'.asArray = .ok vs' → P vs') ↔ P vs := by
  constructor
  · exact fun h => h v vs hv hvs
  · intro h v' vs' hv' hvs'
    rw [hv] at hv'
    cases hv'
    rw [hvs] at hvs'
    cases hvs'
    exact h

theorem stricter_loadInstDesc (platform : Platform) (i : Nat) (iv : Value) :
    Stricter platform (InstKnown iv) (InstUnknown i iv) (loadInstDesc platform false i iv)
      (loadInstDesc platform true i iv) := by
  refine .after _ fun io hio => ?_
  have hknown : (KnownIn instKeys io ∧ ∀ v us, fieldAt io "uops" = .ok v → v.asArray = .ok us →
      ∀ uv ∈ us, UopKnown uv) ↔ InstKnown iv := by
    refine ⟨fun h io' hio' => ?_, fun h => h io hio⟩
    rw [hio] at hio'
    cases hio'
    exact h
  have hown : ∀ r, UnknownIn io instKeys (instPlace i) r → InstUnknown i iv r :=
    fun r hr => ⟨io, hio, .inl hr⟩
  have hkeys := (stricter_checkKeys platform io instKeys (instPlace i)).mono hown
  apply (hkeys.bind _).congr hknown
  intro _ _
  refine .after _ fun _ _ => .after _ fun opcode _ => .after _ fun _ _ => .after _ fun typeMod _ =>
    .after _ fun _ _ => .after _ fun _ _ => .after _ fun kinds _ => .after _ fun v hv =>
    .after _ fun us hus => ?_
  have hinner : ∀ r, (∃ k uv, us[k]? = some uv ∧ UopUnknown i (0 + k) uv r) →
      InstUnknown i iv r := by
    rintro r ⟨k, uv, huv, hr⟩
    exact ⟨io, hio, .inr ⟨v, us, k, uv, hv, hus, huv, Nat.zero_add k ▸ hr⟩⟩
  have huops := (stricter_loadUops platform i 0 us).mono hinner
  exact (huops.congr
    (forall_fieldArray (P := fun us => ∀ uv ∈ us, UopKnown uv) hv hus).symm).before

theorem stricter_loadRootInsts (platform : Platform) (root : Value) :
    Stricter platform (∀ obj, root.asObject = .ok obj → KnownIn rootKeys obj) (RootUnknown root)
      (loadRootInsts platform false root) (loadRootInsts platform true root) := by
  refine .after _ fun obj hobj => ?_
  have hknown :
      KnownIn rootKeys obj ↔ ∀ obj', root.asObject = .ok obj' → KnownIn rootKeys obj' := by
    refine ⟨fun h obj' hobj' => ?_, fun h => h obj hobj⟩
    rw [hobj] at hobj'
    cases hobj'
    exact h
  exact (((stricter_checkKeys platform obj rootKeys "root").congr hknown).mono
    fun r hr => ⟨obj, hobj, .inl hr⟩).before

/-! ### Tables -/

section Tables

variable {load strict : Nat → Value → Except String α} {Known : Value → Prop}
  {Unknown : Nat → Value → KeyReport → Prop}

/-- The entries loaded before are kept. -/
theorem prefix_appendEach (i : Nat) (ivs : List Value) (table : List α) :
    table <+: (appendEach load i ivs table).2 := by
  induction ivs generalizing i table with
  | nil => exact List.prefix_rfl
  | cons iv ivs ih =>
      rw [appendEach]
      split
      · exact List.prefix_rfl
      · exact (List.prefix_append _ _).trans (ih (i + 1) _)

theorem appendEach_stricter
    (h : ∀ i iv, Stricter platform (Known iv) (Unknown i iv) (load i iv) (strict i iv))
    (i : Nat) (ivs : List Value) (table table' : List α) :
    appendEach strict i ivs table = (none, table')
      ↔ appendEach load i ivs table = (none, table') ∧ ∀ iv ∈ ivs, Known iv := by
  induction ivs generalizing i table with
  | nil => simp [appendEach]
  | cons iv ivs ih =>
      rw [appendEach, appendEach, List.forall_mem_cons]
      cases hload : load i iv with
      | error what =>
          have hstrict : ∀ a, strict i iv ≠ .ok a := fun a ha => by
            rw [(h i iv).sound a ha] at hload
            cases hload
          cases hresult : strict i iv with
          | error what' => simp
          | ok a => exact absurd hresult (hstrict a)
      | ok a =>
          by_cases hknown : Known iv
          · simp [(h i iv).same a hload hknown, ih, hknown]
          · obtain ⟨r, -, herror⟩ := (h i iv).refuses a hload hknown
            simp [herror, hknown]

/-- What the strict loader leaves is what the plain one has loaded at that point. -/
theorem appendEach_prefix
    (h : ∀ i iv, Stricter platform (Known iv) (Unknown i iv) (load i iv) (strict i iv))
    (i : Nat) (ivs : List Value) (table : List α) :
    (appendEach strict i ivs table).2 <+: (appendEach load i ivs table).2 := by
  induction ivs generalizing i table with
  | nil => exact List.prefix_rfl
  | cons iv ivs ih =>
      rw [appendEach]
      cases hstrict : strict i iv with
      | error what => exact prefix_appendEach i (iv :: ivs) table
      | ok a =>
          rw [appendEach, (h i iv).sound a hstrict]
          exact ih (i + 1) _

/-- A document the plain loader accepts and the strict one does not has an unknown key. -/
theorem appendEach_refuses
    (h : ∀ i iv, Stricter platform (Known iv) (Unknown i iv) (load i iv) (strict i iv))
    {i : Nat} {ivs : List Value} {table table' : List α}
    (hload : appendEach load i ivs table = (none, table')) (hknown : ¬ ∀ iv ∈ ivs, Known iv) :
    ∃ k iv r, ivs[k]? = some iv ∧ Unknown (i + k) iv r
      ∧ (appendEach strict i ivs table).1 = some (r.message platform) := by
  induction ivs generalizing i table with
  | nil => exact absurd (by simp) hknown
  | cons iv ivs ih =>
      rw [appendEach] at hload ⊢
      cases hplain : load i iv with
      | error what =>
          rw [hplain] at hload
          cases hload
      | ok a =>
          rw [hplain] at hload
          by_cases hfirst : Known iv
          · rw [(h i iv).same a hplain hfirst]
            obtain ⟨k, iv', r, hiv', hr, herror⟩ :=
              ih hload fun hrest => hknown (List.forall_mem_cons.mpr ⟨hfirst, hrest⟩)
            exact ⟨k + 1, iv', r, hiv', by rwa [← Nat.add_assoc, Nat.add_right_comm], herror⟩
          · obtain ⟨r, hr, herror⟩ := (h i iv).refuses a hplain hfirst
            rw [herror]
            exact ⟨0, iv, r, rfl, hr, rfl⟩

end Tables

section Documents

variable {root : Value} {reg : DescriptorRegistry} {insts : List Value}

theorem rootKnown_iff (hinsts : loadRootInsts platform false root = .ok insts) :
    RootKnown root ↔ (∀ obj, root.asObject = .ok obj → KnownIn rootKeys obj)
      ∧ ∀ iv ∈ insts, InstKnown iv := by
  obtain ⟨obj, hobj, hrest⟩ := bind_ok.mp hinsts
  obtain ⟨-, -, hrest⟩ := bind_ok.mp hrest
  obtain ⟨v, hv, harray⟩ := bind_ok.mp hrest
  constructor
  · intro h
    exact ⟨fun obj' hobj' => (h obj' hobj').1, (h obj hobj).2 v insts hv harray⟩
  · intro h obj' hobj'
    refine ⟨h.1 obj' hobj', ?_⟩
    rw [hobj] at hobj'
    cases hobj'
    exact (forall_fieldArray (P := fun insts => ∀ iv ∈ insts, InstKnown iv) hv harray).mpr h.2

/-- Loading reads the array, then its entries. -/
theorem loadRoot_of_insts {strict : Bool}
    (hinsts : loadRootInsts platform strict root = .ok insts) :
    DescriptorRegistry.loadRoot platform strict root
      = ((appendEach (loadInstDesc platform strict) 0 insts []).1,
          { descs := (appendEach (loadInstDesc platform strict) 0 insts []).2 }) := by
  rw [DescriptorRegistry.loadRoot, hinsts]

theorem loadRoot_of_error {strict : Bool} {what : String}
    (hinsts : loadRootInsts platform strict root = .error what) :
    DescriptorRegistry.loadRoot platform strict root = (some what, { descs := [] }) := by
  rw [DescriptorRegistry.loadRoot, hinsts]

theorem loadRoot_none {strict : Bool}
    (h : DescriptorRegistry.loadRoot platform strict root = (none, reg)) :
    ∃ insts, loadRootInsts platform strict root = .ok insts
      ∧ appendEach (loadInstDesc platform strict) 0 insts [] = (none, reg.descs) := by
  cases hinsts : loadRootInsts platform strict root with
  | error what =>
      rw [loadRoot_of_error hinsts] at h
      cases h
  | ok insts =>
      rw [loadRoot_of_insts hinsts] at h
      refine ⟨insts, rfl, ?_⟩
      obtain ⟨hnone, hreg⟩ := Prod.mk.inj h
      exact Prod.ext hnone (congrArg DescriptorRegistry.descs hreg)

theorem strict_loadRoot_iff :
    DescriptorRegistry.loadRoot platform true root = (none, reg)
      ↔ DescriptorRegistry.loadRoot platform false root = (none, reg) ∧ RootKnown root := by
  have hroot := stricter_loadRootInsts platform root
  constructor
  · intro hstrict
    obtain ⟨insts, hinsts, hentries⟩ := loadRoot_none hstrict
    obtain ⟨hplain, hkeys⟩ := (hroot.ok_iff insts).mp hinsts
    obtain ⟨hload, hknown⟩ :=
      (appendEach_stricter (stricter_loadInstDesc platform) 0 insts [] _).mp hentries
    refine ⟨?_, (rootKnown_iff hplain).mpr ⟨hkeys, hknown⟩⟩
    rw [loadRoot_of_insts hplain, hload]
  · rintro ⟨hplain, hknown⟩
    obtain ⟨insts, hinsts, hentries⟩ := loadRoot_none hplain
    obtain ⟨hkeys, hentriesKnown⟩ := (rootKnown_iff hinsts).mp hknown
    have hstrict := (appendEach_stricter (stricter_loadInstDesc platform) 0 insts [] _).mpr
      ⟨hentries, hentriesKnown⟩
    rw [loadRoot_of_insts (hroot.same insts hinsts hkeys), hstrict]

theorem strict_loadRoot_prefix :
    (DescriptorRegistry.loadRoot platform true root).2.descs
      <+: (DescriptorRegistry.loadRoot platform false root).2.descs := by
  cases hinsts : loadRootInsts platform true root with
  | error what =>
      rw [loadRoot_of_error hinsts]
      exact List.nil_prefix
  | ok insts =>
      rw [loadRoot_of_insts hinsts,
        loadRoot_of_insts ((stricter_loadRootInsts _ root).sound insts hinsts)]
      exact appendEach_prefix (stricter_loadInstDesc platform) 0 insts []

theorem strict_loadRoot_refuses
    (hplain : DescriptorRegistry.loadRoot platform false root = (none, reg))
    (hunknown : ¬ RootKnown root) :
    ∃ r, RootUnknown root r
      ∧ (DescriptorRegistry.loadRoot platform true root).1 = some (r.message platform) := by
  obtain ⟨insts, hinsts, hentries⟩ := loadRoot_none hplain
  have hroot := stricter_loadRootInsts platform root
  rw [rootKnown_iff hinsts] at hunknown
  by_cases hkeys : ∀ obj, root.asObject = .ok obj → KnownIn rootKeys obj
  · rw [loadRoot_of_insts (hroot.same insts hinsts hkeys)]
    obtain ⟨k, iv, r, hiv, hr, herror⟩ :=
      appendEach_refuses (stricter_loadInstDesc platform) hentries
        fun hknown => hunknown ⟨hkeys, hknown⟩
    obtain ⟨obj, hobj, hrest⟩ := bind_ok.mp hinsts
    obtain ⟨-, -, hrest⟩ := bind_ok.mp hrest
    obtain ⟨v, hv, harray⟩ := bind_ok.mp hrest
    exact ⟨r, ⟨obj, hobj, .inr ⟨v, insts, k, iv, hv, harray, hiv, Nat.zero_add k ▸ hr⟩⟩, herror⟩
  · obtain ⟨r, hr, herror⟩ := hroot.refuses insts hinsts hkeys
    rw [loadRoot_of_error herror]
    exact ⟨r, hr, rfl⟩

end Documents

/-- **Strict keys.** The strict loader accepts what the plain one accepts and all of whose keys are
known, with the same table. Of another document it loads a part of what the plain loader does, and
if that is all of it the exception names a key that stands in the document where it may not, with
the place and the keys that may stand there. -/
theorem strict_keys_iff (platform : Platform) (text : Text) (reg : DescriptorRegistry) :
    (DescriptorRegistry.loadJsonText platform true text = (none, reg)
        ↔ DescriptorRegistry.loadJsonText platform false text = (none, reg)
          ∧ ∀ root, Json.parseText text = .ok root → RootKnown root)
      ∧ (DescriptorRegistry.loadJsonText platform true text).2.descs
        <+: (DescriptorRegistry.loadJsonText platform false text).2.descs
      ∧ (DescriptorRegistry.loadJsonText platform false text = (none, reg) →
        DescriptorRegistry.loadJsonText platform true text ≠ (none, reg) →
          ∃ root r, Json.parseText text = .ok root ∧ RootUnknown root r
            ∧ (DescriptorRegistry.loadJsonText platform true text).1
              = some (r.message platform)) := by
  rw [DescriptorRegistry.loadJsonText, DescriptorRegistry.loadJsonText]
  cases hparse : Json.parseText text with
  | error what => simp
  | ok root =>
      refine ⟨?_, strict_loadRoot_prefix, fun hplain hstrict => ?_⟩
      · rw [strict_loadRoot_iff]
        simp
      · obtain ⟨r, hr, herror⟩ := strict_loadRoot_refuses hplain fun hknown =>
          hstrict (strict_loadRoot_iff.mpr ⟨hplain, hknown⟩)
        exact ⟨root, r, rfl, hr, herror⟩

/-! ### Documents of tables -/

def stringValue (s : String) : Value := .string s.toList

def uopKindName : MicroOpKind → String
  | .exec => "EXEC"
  | .control => "CTRL"
  | .mem => "MEM"

def uopOpName : MicroOpOp → String
  | .mov => "MOV"
  | .cvt => "CVT"
  | .add => "ADD"
  | .mul => "MUL"
  | .shl => "SHL"
  | .shfl => "SHFL"
  | .fma => "FMA"
  | .warpReduceAdd => "WARP_REDUCE_ADD"
  | .setp => "SETP"
  | .ld => "LD"
  | .st => "ST"
  | .bra => "BRA"
  | .ret => "RET"

def UopTemplate.members (u : UopTemplate) : Object :=
  [("in".toList, .array (u.inOperandIdx.map numberValue)),
    ("kind".toList, stringValue (uopKindName u.kind)),
    ("op".toList, stringValue (uopOpName u.op)),
    ("out".toList, .array (u.outOperandIdx.map numberValue))]

def InstDesc.members (d : InstDesc) : Object :=
  [("opcode".toList, stringValue d.opcode),
    ("operand_kinds".toList, .array (d.operandKinds.map stringValue)),
    ("type_mod".toList, stringValue d.typeMod),
    ("uops".toList, .array (d.uops.map fun u => .object u.members))]

def DescriptorRegistry.document (reg : DescriptorRegistry) : Value :=
  .object [("insts".toList, .array (reg.descs.map fun d => .object d.members))]

def PtxIsaEntry.members (e : PtxIsaEntry) : Object :=
  [("ir_op".toList, stringValue e.irOp),
    ("operand_kinds".toList, .array (e.operandKinds.map stringValue)),
    ("ptx_opcode".toList, .string e.ptxOpcode),
    ("type_mod".toList, .string e.typeMod)]

def PtxIsaRegistry.document (isa : PtxIsaRegistry) : Value :=
  .object [("insts".toList, .array (isa.entries.map fun e => .object e.members))]

/-- The operand indices are an `int` each and print in full. -/
def DescriptorRegistry.Writable (reg : DescriptorRegistry) : Prop :=
  ∀ d ∈ reg.descs, ∀ u ∈ d.uops, ∀ n ∈ u.inOperandIdx ++ u.outOperandIdx,
    n.natAbs < 2 ^ 31 ∧ SixDigits n.natAbs

/-- The texts that the loader puts in lower case are so already. -/
def PtxIsaRegistry.Lower (isa : PtxIsaRegistry) : Prop :=
  ∀ e ∈ isa.entries, toLower e.ptxOpcode = e.ptxOpcode ∧ toLower e.typeMod = e.typeMod
    ∧ ∀ kind ∈ e.operandKinds, toLower kind.toList = kind.toList

section RoundTrip

theorem mapM_document {f : Value → Except String β} {g : α → Value} {k : α → β} {xs : List α}
    (h : ∀ x ∈ xs, f (g x) = .ok (k x)) : (xs.map g).mapM f = .ok (xs.map k) := by
  rw [Throwing.mapM_ok, List.forall₂_map_left_iff, List.forall₂_map_right_iff, List.forall₂_same]
  exact h

theorem castI64_exactly (outOfRange : Double → BitVec 64) {n : Int} (hn : n.natAbs < 2 ^ 63) :
    Json.castI64 outOfRange (exactly n) = BitVec.ofInt 64 n := by
  have hvalue : (if decide (n < 0) = true then -⌊(n.natAbs : ℚ)⌋ else ⌊(n.natAbs : ℚ)⌋) = n := by
    rw [Int.floor_natCast]
    by_cases hneg : n < 0
    · rw [if_pos (decide_eq_true hneg)]
      omega
    · rw [if_neg (by simpa using hneg)]
      omega
  rw [exactly, Json.castI64, hvalue, if_pos (by omega)]

theorem loadIndex_document (platform : Platform) {n : Int} (hn : n.natAbs < 2 ^ 31) :
    loadIndex platform (numberValue n) = .ok n := by
  have hcast : (numberValue n).asI64 platform.outOfRange = .ok (BitVec.ofInt 64 n) := by
    have hexact : Double.ofInt n = exactly n := ofInt_eq (by omega)
    rw [numberValue, Value.asI64, hexact, castI64_exactly _ (by omega)]
  have hnarrow : ((BitVec.ofInt 64 n).setWidth 32).toInt = n := by
    have hsame : (BitVec.ofInt 64 n).setWidth 32 = BitVec.ofInt 32 n := by
      apply BitVec.eq_of_toNat_eq
      rw [BitVec.toNat_setWidth, BitVec.toNat_ofInt, BitVec.toNat_ofInt]
      omega
    rw [hsame, BitVec.toInt_ofInt_eq_self (by decide) (by omega) (by omega)]
  rw [loadIndex, hcast]
  exact congrArg Except.ok hnarrow

theorem asString_stringValue (s : String) : (stringValue s).asString = .ok s.toList := rfl

theorem parseUopKind_name (kind : MicroOpKind) : parseUopKind (uopKindName kind) = .ok kind := by
  cases kind <;> decide

theorem parseUopOp_name (op : MicroOpOp) : parseUopOp (uopOpName op) = .ok op := by
  cases op <;> decide

theorem loadUopNames_members (u : UopTemplate) : loadUopNames u.members = .ok (u.kind, u.op) := by
  refine bind_ok.mpr ⟨_, rfl, bind_ok.mpr ⟨_, rfl, bind_ok.mpr ⟨u.kind, ?_, ?_⟩⟩⟩
  · rw [String.ofList_toList]
    exact parseUopKind_name u.kind
  · refine bind_ok.mpr ⟨_, rfl, bind_ok.mpr ⟨_, rfl, bind_ok.mpr ⟨u.op, ?_, rfl⟩⟩⟩
    rw [String.ofList_toList]
    exact parseUopOp_name u.op

theorem mapM_loadIndex {ns : List Int} (hns : ∀ n ∈ ns, n.natAbs < 2 ^ 31) :
    (ns.map numberValue).mapM (loadIndex platform) = .ok ns := by
  have hmap := mapM_document (k := id) fun n hn => loadIndex_document platform (hns n hn)
  rwa [List.map_id] at hmap

theorem loadUop_members (platform : Platform) (strict : Bool) {u : UopTemplate} (i j : Nat)
    (hu : ∀ n ∈ u.inOperandIdx ++ u.outOperandIdx, n.natAbs < 2 ^ 31) :
    loadUop platform strict i j (.object u.members) = .ok u := by
  have hkeys : checkKeys platform strict u.members uopKeys (uopPlace i j) = .ok () := by
    cases strict <;> rfl
  have hnames : rethrowAt (uopPlace i j) (loadUopNames u.members) = .ok (u.kind, u.op) := by
    rw [loadUopNames_members]
    rfl
  refine bind_ok.mpr ⟨_, rfl, bind_ok.mpr ⟨(), hkeys, bind_ok.mpr ⟨_, hnames, ?_⟩⟩⟩
  refine bind_ok.mpr ⟨_, rfl, bind_ok.mpr ⟨_, rfl, bind_ok.mpr ⟨u.inOperandIdx, ?_, ?_⟩⟩⟩
  · exact mapM_loadIndex fun n hn => hu n (List.mem_append_left _ hn)
  refine bind_ok.mpr ⟨_, rfl, bind_ok.mpr ⟨_, rfl, bind_ok.mpr ⟨u.outOperandIdx, ?_, rfl⟩⟩⟩
  exact mapM_loadIndex fun n hn => hu n (List.mem_append_right _ hn)

theorem loadUops_members {strict : Bool} {us : List UopTemplate} (i j : Nat)
    (hus : ∀ u ∈ us, ∀ n ∈ u.inOperandIdx ++ u.outOperandIdx, n.natAbs < 2 ^ 31) :
    loadUops platform strict i j (us.map fun u => .object u.members) = .ok us := by
  induction us generalizing j with
  | nil => rfl
  | cons u us ih =>
      have hfirst := loadUop_members platform strict i j
        (hus u List.mem_cons_self)
      have hrest := ih (j + 1) fun v hv => hus v (List.mem_cons_of_mem u hv)
      exact bind_ok.mpr ⟨u, hfirst, bind_ok.mpr ⟨us, hrest, rfl⟩⟩

theorem mapM_asString (kinds : List String) :
    (kinds.map stringValue).mapM Value.asString = .ok (kinds.map String.toList) :=
  mapM_document fun kind _ => asString_stringValue kind

theorem map_ofList_toList (kinds : List String) :
    (kinds.map String.toList).map String.ofList = kinds := by
  rw [List.map_map]
  exact List.map_id'' (fun kind => String.ofList_toList) kinds

theorem loadInstDesc_members {strict : Bool} {d : InstDesc} (i : Nat)
    (hd : ∀ u ∈ d.uops, ∀ n ∈ u.inOperandIdx ++ u.outOperandIdx, n.natAbs < 2 ^ 31) :
    loadInstDesc platform strict i (.object d.members) = .ok d := by
  have hkeys : checkKeys platform strict d.members instKeys (instPlace i) = .ok () := by
    cases strict <;> rfl
  refine bind_ok.mpr ⟨_, rfl, bind_ok.mpr ⟨(), hkeys, ?_⟩⟩
  refine bind_ok.mpr ⟨_, rfl, bind_ok.mpr ⟨d.opcode.toList, rfl, ?_⟩⟩
  refine bind_ok.mpr ⟨_, rfl, bind_ok.mpr ⟨d.typeMod.toList, rfl, ?_⟩⟩
  refine bind_ok.mpr
    ⟨_, rfl, bind_ok.mpr ⟨_, rfl, bind_ok.mpr ⟨_, mapM_asString d.operandKinds, ?_⟩⟩⟩
  refine bind_ok.mpr
    ⟨_, rfl, bind_ok.mpr ⟨_, rfl, bind_ok.mpr ⟨d.uops, loadUops_members i 0 hd, ?_⟩⟩⟩
  rw [String.ofList_toList, String.ofList_toList, map_ofList_toList]
  rfl

theorem appendEach_map (load : Nat → Value → Except String α) {doc : α → Value} (xs : List α)
    (h : ∀ i, ∀ x ∈ xs, load i (doc x) = .ok x) (i : Nat) (table : List α) :
    appendEach load i (xs.map doc) table = (none, table ++ xs) := by
  induction xs generalizing i table with
  | nil => rw [List.map_nil, appendEach, List.append_nil]
  | cons x xs ih =>
      rw [List.map_cons, appendEach, h i x List.mem_cons_self]
      refine (ih (fun i y hy => h i y (List.mem_cons_of_mem x hy)) (i + 1) _).trans ?_
      rw [List.append_assoc]
      rfl

theorem loadRoot_document {reg : DescriptorRegistry} (hreg : reg.Writable) (strict : Bool) :
    DescriptorRegistry.loadRoot platform strict reg.document = (none, reg) := by
  have hinsts : loadRootInsts platform strict reg.document
      = .ok (reg.descs.map fun d => .object d.members) := by
    cases strict <;> rfl
  have hentries := appendEach_map (loadInstDesc platform strict) reg.descs
    (fun i d hd => loadInstDesc_members i fun u hu n hn => (hreg d hd u hu n hn).1) 0 []
  rw [loadRoot_of_insts hinsts, hentries]
  rfl

/-! ### Their texts -/

theorem readsBack_int {n : Int} (hfits : n.natAbs < 2 ^ 31) (hsix : SixDigits n.natAbs) :
    Json.ReadsBack (numberValue n) := by
  have hn : Fits n := by
    rw [Fits]
    omega
  refine ⟨printable_numberValue hn, ?_⟩
  rw [reread_numberValue hn, (rereadInt_eq_exactly hn).mpr hsix, numberValue, ofInt_eq hn]
  rfl

theorem readsBack_map {xs : List α} {doc : α → Value} (h : ∀ x ∈ xs, Json.ReadsBack (doc x)) :
    Json.ReadsBack (.array (xs.map doc)) := by
  apply Json.ReadsBack.array
  intro v hv
  obtain ⟨x, hx, rfl⟩ := List.mem_map.mp hv
  exact h x hx

theorem readsBack_strings (ss : List String) : Json.ReadsBack (.array (ss.map stringValue)) :=
  readsBack_map fun s _ => .string s.toList

theorem readsBack_uop {u : UopTemplate} (hu : ∀ n ∈ u.inOperandIdx ++ u.outOperandIdx,
    n.natAbs < 2 ^ 31 ∧ SixDigits n.natAbs) : Json.ReadsBack (.object u.members) := by
  refine .object ?_ (Workload.sorted_of_keys ["in", "kind", "op", "out"] rfl (by decide))
  rw [UopTemplate.members]
  simp only [List.forall_mem_cons, List.not_mem_nil, false_imp_iff, implies_true, and_true]
  refine ⟨readsBack_map fun n hn => ?_, .string _, .string _, readsBack_map fun n hn => ?_⟩
  · obtain ⟨hfits, hsix⟩ := hu n (List.mem_append_left _ hn)
    exact readsBack_int hfits hsix
  · obtain ⟨hfits, hsix⟩ := hu n (List.mem_append_right _ hn)
    exact readsBack_int hfits hsix

theorem DescriptorRegistry.readsBack {reg : DescriptorRegistry} (hreg : reg.Writable) :
    Json.ReadsBack reg.document := by
  refine Workload.readsBack_one (readsBack_map fun d hd => ?_)
  refine .object ?_
    (Workload.sorted_of_keys ["opcode", "operand_kinds", "type_mod", "uops"] rfl (by decide))
  rw [InstDesc.members]
  simp only [List.forall_mem_cons, List.not_mem_nil, false_imp_iff, implies_true, and_true]
  exact ⟨.string _, readsBack_strings _, .string _, readsBack_map fun u hu =>
    readsBack_uop (hreg d hd u hu)⟩

theorem PtxIsaRegistry.readsBack (isa : PtxIsaRegistry) : Json.ReadsBack isa.document := by
  refine Workload.readsBack_one (readsBack_map fun e _ => ?_)
  refine .object ?_
    (Workload.sorted_of_keys ["ir_op", "operand_kinds", "ptx_opcode", "type_mod"] rfl (by decide))
  rw [PtxIsaEntry.members]
  simp only [List.forall_mem_cons, List.not_mem_nil, false_imp_iff, implies_true, and_true]
  exact ⟨.string _, readsBack_strings _, .string _, .string _⟩

theorem parseText_stringify {v : Value} (hv : Json.ReadsBack v) :
    Json.parseText (stringify v) = .ok v := by
  rw [Json.parseText, hv.parse_stringify]

theorem toLower_toLower (s : Text) : toLower (toLower s) = toLower s := by
  rw [toLower, toLower, List.map_map]
  apply List.map_congr_left
  intro ch _
  rw [Function.comp_apply, Char.toLower, Char.toLower]
  split
  · split
    next hupper hlower =>
      -- a letter raised by the distance of the cases lies behind the capitals
      have hz : (ch.val + ('a'.val - 'A'.val)).toNat ≤ 'Z'.val.toNat := hlower.2
      have ha : 'A'.val.toNat ≤ ch.val.toNat := hupper.1
      have hle : ch.val.toNat ≤ 'Z'.val.toNat := hupper.2
      rw [UInt32.toNat_add] at hz
      have hA : 'A'.val.toNat = 65 := rfl
      have hZ : 'Z'.val.toNat = 90 := rfl
      have hdist : ('a'.val - 'A'.val).toNat = 32 := rfl
      omega
    · rfl
  · rfl

theorem loadIsaEntry_members {e : PtxIsaEntry} (hop : toLower e.ptxOpcode = e.ptxOpcode)
    (htype : toLower e.typeMod = e.typeMod)
    (hkinds : ∀ kind ∈ e.operandKinds, toLower kind.toList = kind.toList) :
    loadIsaEntry (.object e.members) = .ok e := by
  refine bind_ok.mpr ⟨_, rfl, bind_ok.mpr ⟨_, rfl, bind_ok.mpr ⟨e.ptxOpcode, rfl, ?_⟩⟩⟩
  refine bind_ok.mpr ⟨_, rfl, bind_ok.mpr ⟨e.typeMod, rfl, ?_⟩⟩
  refine bind_ok.mpr
    ⟨_, rfl, bind_ok.mpr ⟨_, rfl, bind_ok.mpr ⟨_, mapM_asString e.operandKinds, ?_⟩⟩⟩
  refine bind_ok.mpr ⟨_, rfl, bind_ok.mpr ⟨e.irOp.toList, rfl, ?_⟩⟩
  have hsame : (e.operandKinds.map String.toList).map (fun kind => String.ofList (toLower kind))
      = e.operandKinds := by
    rw [List.map_map]
    calc
      e.operandKinds.map ((fun kind => String.ofList (toLower kind)) ∘ String.toList) =
          e.operandKinds.map id := by
        apply List.map_congr_left
        intro kind hkind
        rw [Function.comp_apply, hkinds kind hkind, String.ofList_toList, id]
      _ = e.operandKinds := List.map_id _
  rw [hop, htype, hsame, String.ofList_toList]
  rfl

theorem PtxIsaRegistry.load_document {isa : PtxIsaRegistry} (hisa : isa.Lower) :
    PtxIsaRegistry.loadJsonText (stringify isa.document) = (none, isa) := by
  have hentries := appendEach_map (fun _ => loadIsaEntry) isa.entries
    (fun i e he => loadIsaEntry_members (hisa e he).1 (hisa e he).2.1 (hisa e he).2.2) 0 []
  rw [PtxIsaRegistry.loadJsonText, parseText_stringify isa.readsBack]
  refine (congrArg (fun r : Option String × List PtxIsaEntry =>
    (r.1, ({ entries := r.2 } : PtxIsaRegistry))) hentries).trans ?_
  rfl

theorem appendEach_forall {load : Nat → Value → Except String α} {P : α → Prop}
    (h : ∀ i v a, load i v = .ok a → P a) (i : Nat) (ivs : List Value) {table : List α}
    (htable : ∀ a ∈ table, P a) : ∀ a ∈ (appendEach load i ivs table).2, P a := by
  induction ivs generalizing i table with
  | nil => exact htable
  | cons iv ivs ih =>
      rw [appendEach]
      split
      · exact htable
      next a ha =>
        apply ih
        intro b hb
        rcases List.mem_append.mp hb with hb | hb
        · exact htable b hb
        · rw [List.mem_singleton.mp hb]
          exact h i iv a ha

/-- Whatever is loaded is in lower case. -/
theorem PtxIsaRegistry.lower_load (text : Text) : (PtxIsaRegistry.loadJsonText text).2.Lower := by
  have hentry : ∀ (i : Nat) v e, loadIsaEntry v = .ok e → toLower e.ptxOpcode = e.ptxOpcode
      ∧ toLower e.typeMod = e.typeMod ∧ ∀ kind ∈ e.operandKinds, toLower kind.toList
        = kind.toList := by
    intro i v e he
    obtain ⟨io, -, he⟩ := bind_ok.mp he
    obtain ⟨_, -, he⟩ := bind_ok.mp he
    obtain ⟨ptxOpcode, -, he⟩ := bind_ok.mp he
    obtain ⟨_, -, he⟩ := bind_ok.mp he
    obtain ⟨typeMod, -, he⟩ := bind_ok.mp he
    obtain ⟨_, -, he⟩ := bind_ok.mp he
    obtain ⟨_, -, he⟩ := bind_ok.mp he
    obtain ⟨kinds, -, he⟩ := bind_ok.mp he
    obtain ⟨_, -, he⟩ := bind_ok.mp he
    obtain ⟨irOp, -, he⟩ := bind_ok.mp he
    cases he
    refine ⟨toLower_toLower _, toLower_toLower _, fun kind hkind => ?_⟩
    obtain ⟨s, -, rfl⟩ := List.mem_map.mp hkind
    rw [String.toList_ofList, toLower_toLower]
  rw [PtxIsaRegistry.loadJsonText]
  split
  · exact fun e he => absurd he List.not_mem_nil
  next insts hinsts => exact appendEach_forall hentry 0 insts (by simp)

theorem DescriptorRegistry.load_document (platform : Platform) (strict : Bool)
    {reg : DescriptorRegistry} (hreg : reg.Writable) :
    DescriptorRegistry.loadJsonText platform strict (stringify reg.document) = (none, reg) := by
  rw [DescriptorRegistry.loadJsonText, parseText_stringify (DescriptorRegistry.readsBack hreg)]
  exact loadRoot_document hreg strict

end RoundTrip

/-- **Tables and documents.** A table of descriptors whose operand indices print in full is loaded
from the text of its document, with known keys only. What is loaded of any text into the ISA map is
loaded again from the text of its own document. -/
theorem tables_round_trip (platform : Platform) (strict : Bool) {reg : DescriptorRegistry}
    (hreg : reg.Writable) (text : Text) :
    DescriptorRegistry.loadJsonText platform strict (stringify reg.document) = (none, reg)
      ∧ PtxIsaRegistry.loadJsonText (stringify (PtxIsaRegistry.loadJsonText text).2.document)
        = (none, (PtxIsaRegistry.loadJsonText text).2) :=
  ⟨DescriptorRegistry.load_document platform strict hreg,
    PtxIsaRegistry.load_document (PtxIsaRegistry.lower_load text)⟩

theorem writable_demoDescs : demoDescs.Writable := by
  have hsmall : ∀ d ∈ demoDescs.descs, ∀ u ∈ d.uops, ∀ n ∈ u.inOperandIdx ++ u.outOperandIdx,
      n.natAbs < 10 := by decide
  intro d hd u hu n hn
  have hten := hsmall d hd u hu n hn
  exact ⟨by omega, sixDigits_of_lt (by omega)⟩

theorem tables_round_trip_demo :
    DescriptorRegistry.loadJsonText { outOfRange := fun _ => 0, visit := id } true
        (stringify demoDescs.document) = (none, demoDescs) :=
  (tables_round_trip _ true writable_demoDescs []).1

end ProtoGpu
