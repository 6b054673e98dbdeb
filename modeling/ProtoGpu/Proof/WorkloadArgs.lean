import ProtoGpu.Proof.ParamBinding
import ProtoGpu.Runtime.WorkloadArgs

/-!
# Workload arguments and what a kernel reads of them

Each argument fills the slot of the parameter of its name, and the slots have no byte in common. So
the order in which the arguments are met does not matter, and `ld.param` of a name reads the bytes
of the argument given for it.
-/

namespace ProtoGpu

/-! ### Layouts that end below `2 ^ 32` -/

/-- Where parameters of the types end, behind others that end at `e`. -/
def paramsEndFrom (e : Nat) (types : List ParamType) : Nat :=
  types.foldl (fun e t => alignedTo t e + t.bytes) e

theorem le_alignedTo (t : ParamType) (e : Nat) : e ≤ alignedTo t e := by
  unfold alignedTo
  rcases t.bytes_cases with ht | ht <;> rw [ht] <;> omega

theorem le_paramsEndFrom (e : Nat) (types : List ParamType) : e ≤ paramsEndFrom e types := by
  induction types generalizing e with
  | nil => exact le_rfl
  | cons t types ih =>
      calc e ≤ alignedTo t e := le_alignedTo t e
        _ ≤ alignedTo t e + t.bytes := Nat.le_add_right ..
        _ ≤ paramsEndFrom e (t :: types) := ih _

theorem Laid.addParams {params : List ParamDesc} {e : Nat} (h : Laid params e)
    {rest : List ParamDesc} (hrest : ∀ p ∈ rest, p.Natural)
    (hroom : paramsEndFrom e (rest.map ParamDesc.type) < 2 ^ 32) :
    Laid (rest.foldl addParam params) (paramsEndFrom e (rest.map ParamDesc.type)) := by
  induction rest generalizing params e with
  | nil => exact h
  | cons p rest ih =>
      have hnext : alignedTo p.type e + p.type.bytes < 2 ^ 32 :=
        Nat.lt_of_le_of_lt (le_paramsEndFrom _ (rest.map ParamDesc.type)) hroom
      exact ih (h.snoc (hrest p List.mem_cons_self) hnext)
        (fun q hq => hrest q (List.mem_cons_of_mem p hq)) hroom

theorem types_raw (decls : List ParamDecl) :
    (decls.filterMap ParamDecl.raw).map ParamDesc.type
      = decls.filterMap fun d => d.type.param := by
  rw [List.map_filterMap]
  congr 1
  funext d
  unfold ParamDecl.raw
  cases d.type.param <;> rfl

theorem laid_layoutOf {decls : List ParamDecl}
    (hroom : paramsEndFrom 0 (decls.filterMap fun d => d.type.param) < 2 ^ 32) :
    Laid (layoutOf decls) (paramsEndFrom 0 (decls.filterMap fun d => d.type.param)) := by
  rw [← types_raw] at hroom ⊢
  exact Laid.nil.addParams natural_raw hroom

theorem aligned_layoutOf (decls : List ParamDecl) :
    ∀ p ∈ layoutOf decls, p.start % p.type.bytes = 0 := by
  refine forall_addParams _ (fun params p hp => ?_) fun _ hp => absurd hp List.not_mem_nil
  have hstart := start_addParam params (natural_raw p hp) rfl
  change (alignUpU32 (paramsEnd params) p.align).toNat % p.type.bytes = 0
  rw [hstart, alignedTo]
  rcases p.type.bytes_cases with ht | ht <;> rw [ht] <;> omega

instance : Std.Symm ParamDesc.Apart := ⟨fun _ _ h => Or.symm h⟩

/-- The declarations and the entries of the layout, by name and type. -/
theorem typed_layoutOf (decls : List ParamDecl) :
    (layoutOf decls).map (fun p => (p.name, p.type))
      = decls.filterMap fun d => d.type.param.map fun t => (String.ofList d.name, t) := by
  have hmap := addParams_map (fun p => (p.name, p.type)) (fun _ _ => rfl) []
    (decls.filterMap ParamDecl.raw)
  rw [List.map_filterMap] at hmap
  refine hmap.trans ?_
  rw [List.map_nil, List.nil_append]
  congr 1
  funext d
  unfold ParamDecl.raw
  cases d.type.param <;> rfl

/-! ### One argument -/

namespace Workload

open Slots (Slot fill overlay)

/-- The `size` low bytes of a number, the lowest first. -/
def leBytes (n size : Nat) : List Byte :=
  (List.range size).map fun i => BitVec.ofNat 8 (n / 256 ^ i)

theorem packLe_eq_leBytes (v : BitVec 64) (size : Nat) : packLe v size = leBytes v.toNat size := by
  refine List.map_congr_left fun i _ => ?_
  apply BitVec.eq_of_toNat_eq
  rw [BitVec.toNat_setWidth, BitVec.toNat_ushiftRight, Nat.shiftRight_eq_div_pow, Nat.pow_mul,
    BitVec.toNat_ofNat]

/-- The argument can be given for a parameter of the type. -/
def ArgFits (devBufs : DeviceBufs) (t : ParamType) : ArgValue → Prop
  | .u32 _ => t = .u32
  | .u64 _ => t = .u64
  | .ptrDevice buf => t = .u64 ∧ (devBufs.lookup buf).isSome = true
  | .bytesHex hex => ∃ bytes, parseHexBytes hex = .ok bytes ∧ bytes.length = t.bytes

/-- What a kernel is to read of it. -/
def argBytes (devBufs : DeviceBufs) : ArgValue → List Byte
  | .u32 v => leBytes v.toNat 4
  | .u64 v => leBytes v.toNat 8
  | .ptrDevice buf =>
      match devBufs.lookup buf with
      | some (ptr, _) => leBytes ptr.toNat 8
      | none => []
  | .bytesHex hex =>
      match parseHexBytes hex with
      | .ok bytes => bytes
      | .error _ => []

variable {devBufs : DeviceBufs} {entry name : Text} {av : ArgValue} {p : ParamDesc}
  {blob blob' : List Byte}

theorem length_leBytes (n size : Nat) : (leBytes n size).length = size := by
  rw [leBytes, List.length_map, List.length_range]

theorem ArgFits.length {t : ParamType} (hfits : ArgFits devBufs t av) :
    (argBytes devBufs av).length = t.bytes := by
  cases av with
  | u32 v =>
      obtain rfl : t = .u32 := hfits
      exact length_leBytes ..
  | u64 v =>
      obtain rfl : t = .u64 := hfits
      exact length_leBytes ..
  | ptrDevice buf =>
      obtain ⟨rfl, hbuf⟩ := hfits
      obtain ⟨⟨ptr, size⟩, hlookup⟩ := Option.isSome_iff_exists.mp hbuf
      rw [argBytes, hlookup]
      exact length_leBytes ..
  | bytesHex hex =>
      obtain ⟨bytes, hparse, hlength⟩ := hfits
      rw [argBytes, hparse]
      exact hlength

/-- A parameter of the type has room for a value of it. -/
theorem writeLe_eq {t : ParamType} (ht : p.type = t) (v : BitVec 64)
    (hfit : p.start + p.type.bytes ≤ blob.length) :
    writeLe blob p.offset v t.bytes = .ok (overlay blob p.start (leBytes v.toNat t.bytes)) := by
  subst ht
  rw [writeLe, packLe_eq_leBytes]
  exact if_neg (Nat.not_lt.mpr hfit)

theorem not_entryFail {α : Type} {code message : String} {a : α} :
    entryFail code entry message ≠ .ok a := nofun

theorem natural_size_iff (hp : p.Natural) (t : ParamType) :
    p.type ≠ t ∨ p.size ≠ BitVec.ofNat 32 t.bytes ↔ p.type ≠ t := by
  constructor
  · rintro (h | h)
    · exact h
    · rintro rfl
      exact h hp.size
  · exact .inl

/-- An argument is written where its parameter lies, when it can be given for it. -/
theorem writeArg_iff (hp : p.Natural) (hfit : p.stop ≤ blob.length) :
    writeArg devBufs entry blob p name av = .ok blob'
      ↔ ArgFits devBufs p.type av ∧ blob' = overlay blob p.start (argBytes devBufs av) := by
  rw [hp.stop_eq] at hfit
  have h32 : (p.type ≠ .u32 ∨ p.size ≠ 4) ↔ p.type ≠ .u32 := natural_size_iff hp .u32
  have h64 : (p.type ≠ .u64 ∨ p.size ≠ 8) ↔ p.type ≠ .u64 := natural_size_iff hp .u64
  cases av with
  | u32 v =>
      unfold writeArg
      dsimp only
      by_cases ht : p.type = .u32
      · have hwrite : writeLe blob p.offset v 4 = .ok (overlay blob p.start (leBytes v.toNat 4)) :=
          writeLe_eq ht v hfit
        rw [if_neg (fun h => h32.mp h ht), hwrite, Except.ok.injEq]
        exact ⟨fun h => ⟨ht, h.symm⟩, fun h => h.2.symm⟩
      · rw [if_pos (.inl ht)]
        exact iff_of_false not_entryFail fun h => ht h.1
  | u64 v =>
      unfold writeArg
      dsimp only
      by_cases ht : p.type = .u64
      · have hwrite : writeLe blob p.offset v 8 = .ok (overlay blob p.start (leBytes v.toNat 8)) :=
          writeLe_eq ht v hfit
        rw [if_neg (fun h => h64.mp h ht), hwrite, Except.ok.injEq]
        exact ⟨fun h => ⟨ht, h.symm⟩, fun h => h.2.symm⟩
      · rw [if_pos (.inl ht)]
        exact iff_of_false not_entryFail fun h => ht h.1
  | ptrDevice buf =>
      unfold writeArg
      dsimp only
      by_cases ht : p.type = .u64
      · rw [if_neg (fun h => h64.mp h ht)]
        unfold ArgFits argBytes
        dsimp only
        cases devBufs.lookup buf with
        | none => exact iff_of_false not_entryFail fun h => Bool.false_ne_true h.1.2
        | some found =>
            have hwrite : writeLe blob p.offset found.1 8
                = .ok (overlay blob p.start (leBytes found.1.toNat 8)) := writeLe_eq ht found.1 hfit
            dsimp only
            rw [hwrite, Except.ok.injEq]
            exact ⟨fun h => ⟨⟨ht, rfl⟩, h.symm⟩, fun h => h.2.symm⟩
      · rw [if_pos (.inl ht)]
        exact iff_of_false not_entryFail fun h => ht h.1.1
  | bytesHex hex =>
      have hsize : p.size.toNat = p.type.bytes := by rw [hp.size, toNat_bytes]
      unfold writeArg ArgFits argBytes
      dsimp only
      cases hparse : parseHexBytes hex with
      | error t => exact iff_of_false nofun fun ⟨⟨_, h, _⟩, _⟩ => nomatch h
      | ok bytes =>
          dsimp only
          rw [hsize]
          by_cases hlength : bytes.length = p.type.bytes
          · have hroom : ¬ blob.length < p.offset.toNat + p.type.bytes := Nat.not_lt.mpr hfit
            rw [if_neg (not_not.mpr hlength), hlength, if_neg hroom, Except.ok.injEq]
            exact ⟨fun h => ⟨⟨bytes, rfl, hlength⟩, h.symm⟩, fun h => h.2.symm⟩
          · rw [if_pos hlength]
            refine iff_of_false not_entryFail ?_
            rintro ⟨⟨_, h, hlength'⟩, -⟩
            cases h
            exact hlength hlength'

/-! ### All arguments -/

variable {layout : List ParamDesc} {args : List (Text × ArgValue)}

/-- The slot an argument fills. -/
def argSlot (devBufs : DeviceBufs) (layout : List ParamDesc) (arg : Text × ArgValue) :
    Slot Byte where
  off := ((findParam layout arg.1).map ParamDesc.start).getD 0
  cells := argBytes devBufs arg.2

/-- The argument can be given for the parameter of its name. -/
def ArgKnown (devBufs : DeviceBufs) (layout : List ParamDesc) (arg : Text × ArgValue) : Prop :=
  ∃ p, findParam layout arg.1 = some p ∧ ArgFits devBufs p.type arg.2

theorem mem_of_findParam (hfind : findParam layout name = some p) : p ∈ layout :=
  List.mem_of_find?_eq_some hfind

theorem name_of_findParam (hfind : findParam layout name = some p) : p.name = quoted name := by
  simpa using List.find?_some hfind

theorem argSlot_known {arg : Text × ArgValue} (hnatural : ∀ p ∈ layout, p.Natural)
    (hknown : ArgKnown devBufs layout arg) :
    ∃ p ∈ layout, p.name = quoted arg.1 ∧ (argSlot devBufs layout arg).off = p.start
      ∧ (argSlot devBufs layout arg).stop = p.stop := by
  obtain ⟨p, hfind, hfits⟩ := hknown
  have hmem := mem_of_findParam hfind
  have hoff : (argSlot devBufs layout arg).off = p.start := by
    rw [argSlot, hfind]
    rfl
  refine ⟨p, hmem, name_of_findParam hfind, hoff, ?_⟩
  rw [Slot.stop, hoff, argSlot, hfits.length, (hnatural p hmem).stop_eq]

/-- The loop accepts exactly known arguments, and fills their slots. -/
theorem packArgs_iff (hnatural : ∀ p ∈ layout, p.Natural)
    (hfits : ∀ p ∈ layout, p.stop ≤ blob.length) :
    packArgs devBufs entry layout blob args = .ok blob'
      ↔ (∀ arg ∈ args, ArgKnown devBufs layout arg)
        ∧ blob' = fill blob (args.map (argSlot devBufs layout)) := by
  induction args generalizing blob with
  | nil =>
      rw [packArgs, Except.ok.injEq]
      exact ⟨fun h => ⟨nofun, h.symm⟩, fun h => h.2.symm⟩
  | cons arg args ih =>
      obtain ⟨name, av⟩ := arg
      rw [packArgs]
      cases hfind : findParam layout name with
      | none =>
          refine iff_of_false not_entryFail fun h => ?_
          obtain ⟨p, hp, -⟩ := h.1 _ List.mem_cons_self
          rw [hfind] at hp
          cases hp
      | some p =>
          have hmem := mem_of_findParam hfind
          have hfit := hfits p hmem
          have hself : ArgFits devBufs p.type av ↔ ArgKnown devBufs layout (name, av) := by
            constructor
            · exact fun h => ⟨p, hfind, h⟩
            · rintro ⟨q, hq, h⟩
              obtain rfl := Option.some.inj (hfind.symm.trans hq)
              exact h
          have hslot : (argSlot devBufs layout (name, av)).off = p.start := by
            rw [argSlot, hfind]
            rfl
          have harg : ∀ mid, writeArg devBufs entry blob p name av = .ok mid
              ↔ ArgFits devBufs p.type av ∧ mid = overlay blob p.start (argBytes devBufs av) :=
            fun mid => writeArg_iff (hnatural p hmem) hfit
          dsimp only
          cases hwrite : writeArg devBufs entry blob p name av with
          | error t =>
              refine iff_of_false nofun fun h => ?_
              have hok := (harg _).mpr ⟨hself.mpr (h.1 _ List.mem_cons_self), rfl⟩
              rw [hwrite] at hok
              cases hok
          | ok mid =>
              obtain ⟨hgood, rfl⟩ := (harg mid).mp hwrite
              have hlength : (overlay blob p.start (argBytes devBufs av)).length = blob.length := by
                apply Slots.length_overlay
                rw [hgood.length, ← (hnatural p hmem).stop_eq]
                exact hfit
              dsimp only
              rw [ih fun q hq => (hfits q hq).trans hlength.ge, List.forall_mem_cons, List.map_cons,
                Slots.fill_cons, hslot]
              exact and_congr_left fun _ => (and_iff_right (hself.mp hgood)).symm

/-- The blob of the arguments, in the order they are met. -/
def packedBlob (order : ArgOrder) (devBufs : DeviceBufs) (layout : List ParamDesc) (e : Nat)
    (args : List (Text × ArgValue)) : List Byte :=
  fill (List.replicate e 0) ((order.visit args).map (argSlot devBufs layout))

/-- What `pack_kernel_args` does from the layout on. -/
theorem packLayout_iff {order : ArgOrder} {ka : KernelArgs} {e : Nat} (hlaid : Laid layout e)
    (hnatural : ∀ p ∈ layout, p.Natural) :
    packLayout order devBufs entry layout args = .ok ka
      ↔ (∀ arg ∈ args, ArgKnown devBufs layout arg)
        ∧ (∀ p ∈ layout, ∃ arg ∈ args, quoted arg.1 = p.name)
        ∧ ka = { layout := layout, blob := packedBlob order devBufs layout e args } := by
  have hblob : (blobBytes layout).toNat = e := hlaid.ends
  have hfits : ∀ p ∈ layout, p.stop ≤ (List.replicate e (0 : Byte)).length := by
    intro p hp
    rw [List.length_replicate]
    exact hlaid.below p hp
  have hvisit : (∀ arg ∈ order.visit args, ArgKnown devBufs layout arg)
      ↔ ∀ arg ∈ args, ArgKnown devBufs layout arg :=
    forall_congr' fun arg => imp_congr_left (order.perm args).mem_iff
  have hpack :
      ∀ blob', packArgs devBufs entry layout (List.replicate e 0) (order.visit args) = .ok blob'
      ↔ (∀ arg ∈ args, ArgKnown devBufs layout arg)
        ∧ blob' = packedBlob order devBufs layout e args := fun blob' => by
    rw [packArgs_iff hnatural hfits, hvisit]
    rfl
  unfold packLayout
  rw [hblob]
  cases hrun : packArgs devBufs entry layout (List.replicate e 0) (order.visit args) with
  | error t =>
      refine iff_of_false nofun fun h => ?_
      have hok := (hpack _).mpr ⟨h.1, rfl⟩
      rw [hrun] at hok
      cases hok
  | ok blob' =>
      obtain ⟨hknown, rfl⟩ := (hpack blob').mp hrun
      have hmissing : layout.find? (fun p => !args.any fun arg => quoted arg.1 == p.name) = none
          ↔ ∀ p ∈ layout, ∃ arg ∈ args, quoted arg.1 = p.name := by
        rw [List.find?_eq_none]
        refine forall₂_congr fun p _ => ?_
        simp
      dsimp only
      split
      · next p hfind =>
        refine iff_of_false not_entryFail fun h => ?_
        rw [hmissing.mpr h.2.1] at hfind
        cases hfind
      · next hnone =>
        rw [Except.ok.injEq]
        exact ⟨fun h => ⟨hknown, hmissing.mp hnone, h.symm⟩, fun h => h.2.2.symm⟩

/-! ### Reading back -/

theorem findParam_of_mem (hnames : layout.Pairwise fun p q => p.name ≠ q.name) (hp : p ∈ layout)
    (hname : p.name = quoted name) : findParam layout name = some p := by
  obtain ⟨front, back, rfl⟩ := List.append_of_mem hp
  unfold findParam
  rw [← hname]
  exact find?_of_names fun q hq =>
    (List.pairwise_append.mp hnames).2.2 q hq p List.mem_cons_self

theorem quoted_injective : Function.Injective quoted := fun a b h => by
  simpa [quoted] using congrArg String.toList h

/-- Different known arguments have slots apart. -/
theorem apart_argSlots {arg arg' : Text × ArgValue} (hnatural : ∀ p ∈ layout, p.Natural)
    (hapart : layout.Pairwise ParamDesc.Apart) (hknown : ArgKnown devBufs layout arg)
    (hknown' : ArgKnown devBufs layout arg') (hne : arg.1 ≠ arg'.1) :
    (argSlot devBufs layout arg).Apart (argSlot devBufs layout arg') := by
  obtain ⟨p, hp, hname, hoff, hstop⟩ := argSlot_known hnatural hknown
  obtain ⟨q, hq, hname', hoff', hstop'⟩ := argSlot_known hnatural hknown'
  have hpq : p ≠ q := by
    rintro rfl
    exact hne (quoted_injective (hname.symm.trans hname'))
  have h : p.Apart q := hapart.forall hp hq hpq
  rw [Slot.Apart, hoff, hoff', hstop, hstop']
  exact h

/-- A parameter reads the bytes of the argument of its name. -/
theorem readParamSymbol_packed (order : ArgOrder) {e : Nat} (hlaid : Laid layout e)
    (hnatural : ∀ p ∈ layout, p.Natural) (hargs : (args.map Prod.fst).Nodup)
    (hknown : ∀ arg ∈ args, ArgKnown devBufs layout arg) (hfind : findParam layout name = some p)
    (harg : (name, av) ∈ args) (mgr : AddrSpaceManager) :
    (mgr.setParams
      { layout := layout, blob := packedBlob order devBufs layout e args }).readParamSymbol
        (quoted name) (BitVec.ofNat 64 p.type.bytes) = some (argBytes devBufs av) := by
  have hp := mem_of_findParam hfind
  obtain ⟨q, hq, hfits⟩ := hknown _ harg
  obtain rfl := Option.some.inj (hfind.symm.trans hq)
  have hslot : (argSlot devBufs layout (name, av)).off = p.start := by
    rw [argSlot, hfind]
    rfl
  have hstops : ∀ s ∈ (order.visit args).map (argSlot devBufs layout),
      s.stop ≤ (List.replicate e (0 : Byte)).length := by
    intro s hs
    obtain ⟨arg, hvisited, rfl⟩ := List.mem_map.mp hs
    obtain ⟨r, hr, -, -, hstop⟩ := argSlot_known hnatural
      (hknown arg ((order.perm args).mem_iff.mp hvisited))
    rw [hstop, List.length_replicate]
    exact hlaid.below r hr
  have hlength : (packedBlob order devBufs layout e args).length = e := by
    rw [packedBlob, Slots.length_fill hstops, List.length_replicate]
  have hroom : p.start + p.type.bytes ≤ e := by
    rw [← (hnatural p hp).stop_eq]
    exact hlaid.below p hp
  have hsame : ({ layout := layout, blob := packedBlob order devBufs layout e args } :
      KernelArgs).layout.find? (fun r => r.name == quoted name) = some p := hfind
  rw [readParamSymbol_eq mgr hsame p.type, hlength, if_neg (Nat.not_lt.mpr hroom),
    Option.some.injEq]
  -- no argument met later has a byte in common with this one
  obtain ⟨front, back, hsplit⟩ := List.append_of_mem ((order.perm args).mem_iff.mpr harg)
  have hnodup :
      ((order.visit args).map Prod.fst).Nodup := ((order.perm args).map _).nodup_iff.mpr hargs
  have hlater : ∀ s ∈ back.map (argSlot devBufs layout),
      (argSlot devBufs layout (name, av)).Apart s := by
    intro s hs
    obtain ⟨arg, hback, rfl⟩ := List.mem_map.mp hs
    have hmem : arg ∈ args := (order.perm args).mem_iff.mp
      (by rw [hsplit]; exact List.mem_append_right _ (List.mem_cons_of_mem _ hback))
    rw [hsplit, List.map_append, List.map_cons] at hnodup
    have hne : name ≠ arg.1 := fun h =>
      (List.nodup_cons.mp (List.nodup_append.mp hnodup).2.1).1
        (List.mem_map.mpr ⟨arg, hback, h.symm⟩)
    exact apart_argSlots hnatural hlaid.apart (hknown _ harg) (hknown arg hmem) hne
  rw [hsplit, List.map_append, List.map_cons] at hstops
  apply List.ext_getElem?
  intro i
  rcases Nat.lt_or_ge i p.type.bytes with hi | hi
  · have hread := Slots.read_fill hstops hlater (i := i) (by rw [argSlot, hfits.length]; exact hi)
    rw [← List.map_cons, ← List.map_append, ← hsplit, hslot] at hread
    rw [List.getElem?_map, List.getElem?_range hi, Option.map_some, List.getD_eq_getElem?_getD,
      packedBlob, hread]
    have hin : i < (argBytes devBufs av).length := by rw [hfits.length]; exact hi
    rw [argSlot, List.getElem?_eq_getElem hin]
    rfl
  · rw [List.getElem?_eq_none (by rw [List.length_map, List.length_range]; exact hi),
      List.getElem?_eq_none (by rw [hfits.length]; exact hi)]

/-! ### The law -/

/-- The arguments have exactly the declared names, each with a value of its kind and size. -/
structure ExactArgs (devBufs : DeviceBufs) (decls : List ParamDecl)
    (args : List (Text × ArgValue)) : Prop where
  names : ∀ name, name ∈ args.map Prod.fst ↔ name ∈ decls.map ParamDecl.name
  fits : ∀ d ∈ decls, ∀ t, d.type.param = some t → ∀ av, (d.name, av) ∈ args → ArgFits devBufs t av

/-- The layout is aligned and without overlap, and each declared name is read as its argument. -/
structure ReadsArgs (devBufs : DeviceBufs) (decls : List ParamDecl) (args : List (Text × ArgValue))
    (ka : KernelArgs) : Prop where
  names : ka.layout.map ParamDesc.name = decls.map fun d => quoted d.name
  aligned : ∀ p ∈ ka.layout, p.offset.toNat % p.type.bytes = 0
  apart : ka.layout.Pairwise ParamDesc.Apart
  reads : ∀ d ∈ decls, ∀ av, (d.name, av) ∈ args → ∀ mgr : AddrSpaceManager,
    (mgr.setParams ka).readParamSymbol (quoted d.name) (BitVec.ofNat 64 d.type.bytes)
      = some (argBytes devBufs av)

/-- The module's file defines the entry, with the signature of the source. -/
structure Provides (env : Env) (mod : ModuleDecl) (entry : Text) (s : KernelSource) : Prop where
  form : s.Form entry
  file : ∃ text, env.files mod.ptx = some text ∧ text.getlines = s.lines
  binds : ∃ m k, parsePtxFileTokens env mod.ptx = .ok m ∧ bindKernelByName m entry = .ok k

theorem Provides.pack {env : Env} {mod : ModuleDecl} {s : KernelSource}
    (hprovides : Provides env mod entry s) :
    packKernelArgs env mod entry args devBufs
      = packLayout env.argOrder devBufs entry (layoutOf s.decls) args := by
  obtain ⟨text, hfile, hlines⟩ := hprovides.file
  obtain ⟨m, k, hparse, hbind⟩ := hprovides.binds
  obtain ⟨hmem, hname⟩ := bindKernelByName_name hbind
  have htext := hparse
  rw [parsePtxFileTokens, hfile] at htext
  rw [packKernelArgs, hparse]
  dsimp only
  rw [hbind]
  dsimp only
  rw [params_of_source hprovides.form hlines htext hmem hname]

section Law

variable {decls : List ParamDecl}

/-- An entry of the layout for each declaration. -/
theorem entry_of_mem {d : ParamDecl} (hknown : AllKnown decls) (hd : d ∈ decls) :
    ∃ p ∈ layoutOf decls, p.name = quoted d.name ∧ d.type.param = some p.type
      ∧ p.type.bytes = d.type.bytes := by
  obtain ⟨t, ht, hbytes⟩ : ∃ t, d.type.param = some t ∧ t.bytes = d.type.bytes := by
    rcases hknown d hd with h | h <;> rw [h] <;> exact ⟨_, rfl, rfl⟩
  have hin : (String.ofList d.name, t)
      ∈ decls.filterMap fun d => d.type.param.map fun t => (String.ofList d.name, t) :=
    List.mem_filterMap.mpr ⟨d, hd, by rw [ht, Option.map_some]⟩
  rw [← typed_layoutOf] at hin
  obtain ⟨p, hp, hsame⟩ := List.mem_map.mp hin
  obtain ⟨hname, rfl⟩ := Prod.mk.inj hsame
  exact ⟨p, hp, hname, ht, hbytes⟩

theorem decl_of_mem (hp : p ∈ layoutOf decls) :
    ∃ d ∈ decls, p.name = quoted d.name ∧ d.type.param = some p.type := by
  have hin : (p.name, p.type) ∈ (layoutOf decls).map fun p => (p.name, p.type) :=
    List.mem_map_of_mem hp
  rw [typed_layoutOf] at hin
  obtain ⟨d, hd, hsame⟩ := List.mem_filterMap.mp hin
  obtain ⟨t, ht, hpair⟩ := Option.map_eq_some_iff.mp hsame
  obtain ⟨hname, rfl⟩ := Prod.mk.inj hpair
  exact ⟨d, hd, hname.symm, ht⟩

theorem exactArgs_iff (hknown : AllKnown decls) (hnames : (decls.map ParamDecl.name).Nodup) :
    ((∀ arg ∈ args, ArgKnown devBufs (layoutOf decls) arg)
      ∧ ∀ p ∈ layoutOf decls, ∃ arg ∈ args, quoted arg.1 = p.name) ↔
        ExactArgs devBufs decls args := by
  have hdistinct := (nodup_names_iff hknown).mpr hnames
  constructor
  · rintro ⟨hargs, hall⟩
    refine ⟨fun name => ⟨fun hin => ?_, fun hin => ?_⟩, fun d hd t ht av harg => ?_⟩
    · obtain ⟨arg, harg, rfl⟩ := List.mem_map.mp hin
      obtain ⟨p, hfind, -⟩ := hargs arg harg
      obtain ⟨d, hd, hname, -⟩ := decl_of_mem (mem_of_findParam hfind)
      have hsame := quoted_injective (hname.symm.trans (name_of_findParam hfind))
      exact List.mem_map.mpr ⟨d, hd, hsame⟩
    · obtain ⟨d, hd, rfl⟩ := List.mem_map.mp hin
      obtain ⟨p, hp, hname, -, -⟩ := entry_of_mem hknown hd
      obtain ⟨arg, harg, hsame⟩ := hall p hp
      exact List.mem_map.mpr ⟨arg, harg, quoted_injective (hsame.trans hname)⟩
    · obtain ⟨p, hp, hname, htype, -⟩ := entry_of_mem hknown hd
      obtain ⟨q, hq, hfits⟩ := hargs _ harg
      obtain rfl := Option.some.inj ((findParam_of_mem hdistinct hp hname).symm.trans hq)
      obtain rfl := Option.some.inj (htype.symm.trans ht)
      exact hfits
  · intro hexact
    refine ⟨fun arg harg => ?_, fun p hp => ?_⟩
    · obtain ⟨d, hd, hname⟩ := List.mem_map.mp ((hexact.names arg.1).mp (List.mem_map_of_mem harg))
      obtain ⟨p, hp, hquoted, htype, -⟩ := entry_of_mem hknown hd
      refine ⟨p, findParam_of_mem hdistinct hp (by rw [hquoted, hname]), ?_⟩
      exact hexact.fits d hd p.type htype arg.2 (by rw [hname]; exact harg)
    · obtain ⟨d, hd, hname, -⟩ := decl_of_mem hp
      obtain ⟨arg, harg, hsame⟩ := List.mem_map.mp
        ((hexact.names d.name).mpr (List.mem_map_of_mem hd))
      exact ⟨arg, harg, by rw [hsame, hname]⟩

/-- **Workload arguments.** They are accepted exactly when they are those of the signature, and each
parameter then reads the bytes of its own. -/
theorem workload_args_round_trip {env : Env} {mod : ModuleDecl} {s : KernelSource}
    (hprovides : Provides env mod entry s) (hknown : AllKnown s.decls)
    (hnames : (s.decls.map ParamDecl.name).Nodup)
    (hsize : paramsEndFrom 0 (s.decls.filterMap fun d => d.type.param) < 2 ^ 32)
    (hargs : (args.map Prod.fst).Nodup) :
    ((∃ ka, packKernelArgs env mod entry args devBufs = .ok ka) ↔ ExactArgs devBufs s.decls args)
      ∧ ∀ ka, packKernelArgs env mod entry args devBufs = .ok ka →
        ReadsArgs devBufs s.decls args ka := by
  have hlaid := laid_layoutOf hsize
  have hnatural := natural_layoutOf s.decls
  rw [hprovides.pack]
  constructor
  · rw [← exactArgs_iff hknown hnames]
    constructor
    · rintro ⟨ka, hpack⟩
      obtain ⟨hall, hnone, -⟩ := (packLayout_iff hlaid hnatural).mp hpack
      exact ⟨hall, hnone⟩
    · rintro ⟨hall, hnone⟩
      exact ⟨_, (packLayout_iff hlaid hnatural).mpr ⟨hall, hnone, rfl⟩⟩
  · intro ka hpack
    obtain ⟨hall, -, rfl⟩ := (packLayout_iff hlaid hnatural).mp hpack
    refine ⟨names_layoutOf hknown, aligned_layoutOf s.decls, hlaid.apart,
      fun d hd av harg mgr => ?_⟩
    obtain ⟨p, hp, hname, -, hbytes⟩ := entry_of_mem hknown hd
    rw [← hbytes]
    have hfind := findParam_of_mem ((nodup_names_iff hknown).mpr hnames) hp hname
    exact readParamSymbol_packed _ hlaid hnatural hargs hall hfind harg mgr

end Law

/-- A `.u32` and, behind padding, a `.u64`. -/
def wideBehindNarrow : List ParamDecl :=
  [{ lead := [], afterParam := [' '], type := .u32, afterType := [' '], name := ['a']
     sep := [','], trail := [], blanks := isBlank_of_spaced, gaps := gaps_of_spaced
     named := List.cons_ne_nil _ _, letters := isNameChar_of_mem_a
     seps := List.forall_mem_singleton.mpr List.mem_cons_self },
   { lead := [], afterParam := [' '], type := .u64, afterType := [' '], name := ['b']
     sep := [], trail := [], blanks := isBlank_of_spaced, gaps := gaps_of_spaced
     named := List.cons_ne_nil _ _, letters := isNameChar_of_mem_b
     seps := List.forall_mem_nil _ }]

def plainEnv (decls : List ParamDecl) : Env where
  files := fun _ => some (plainText decls)
  outOfRange := fun _ => 0
  hostFits := fun _ => true

def plainModule : ModuleDecl where
  ptx := ['m']
  ptxIsa := []
  instDesc := []

theorem provides_plain (decls : List ParamDecl) :
    Provides (plainEnv decls) plainModule ['k'] (plainSource decls) where
  form := form_plain decls
  file := ⟨plainText decls, rfl, getlines_plain decls⟩
  binds := bind_plain .inserted (quoted ['m']) decls

/-- The pointer is given first. -/
def pointerFirst : List (Text × ArgValue) := [(['b'], .ptrDevice ['d']), (['a'], .u32 7)]

def oneBuffer : DeviceBufs := [(['d'], 0x1000, 64)]

theorem exactArgs_pointerFirst : ExactArgs oneBuffer wideBehindNarrow pointerFirst where
  names name := by simp [pointerFirst, wideBehindNarrow, or_comm]
  fits d hd t ht av harg := by
    simp only [wideBehindNarrow, List.mem_cons, List.not_mem_nil, or_false] at hd
    rcases hd with rfl | rfl
    · obtain rfl : t = .u32 := (Option.some.inj ht).symm
      obtain rfl : av = .u32 7 := by simpa [pointerFirst] using harg
      rfl
    · obtain rfl : t = .u64 := (Option.some.inj ht).symm
      obtain rfl : av = .ptrDevice ['d'] := by simpa [pointerFirst] using harg
      exact ⟨rfl, rfl⟩

theorem workload_args_round_trip_swapped :
    ∃ ka, packKernelArgs (plainEnv wideBehindNarrow) plainModule ['k'] pointerFirst
      oneBuffer = .ok ka
      ∧ ReadsArgs oneBuffer wideBehindNarrow pointerFirst ka := by
  have hlaw : (_ ↔ ExactArgs oneBuffer wideBehindNarrow pointerFirst)
      ∧ ∀ ka, _ → ReadsArgs oneBuffer wideBehindNarrow pointerFirst ka :=
    workload_args_round_trip (provides_plain wideBehindNarrow)
      (by simp [AllKnown, plainSource, wideBehindNarrow]) (by decide) (by decide) (by decide)
  obtain ⟨ka, hpack⟩ := hlaw.1.mpr exactArgs_pointerFirst
  exact ⟨ka, hpack, hlaw.2 ka hpack⟩

end Workload

end ProtoGpu
