import ProtoGpu.Proof.HostBounds
import ProtoGpu.Proof.JsonParse
import ProtoGpu.Proof.WorkloadArgs
import ProtoGpu.Runtime.AppConfig

/-!
# Numbers of documents

An integer of a workload or of a configuration is a double, then 64 bits, then often 32. A double
below `2 ^ 53` and its 64 bits are exact; the last step keeps the integer exactly when it is below
`2 ^ 32`, and none of the loaders checks that.
-/

namespace ProtoGpu.Workload

open Json (Value Object)
open Throwing

/-! ### Integers -/

/-- The value is the non-negative integer. -/
def IsNatural (v : Value) (n : Nat) : Prop :=
  ∃ neg, v = .number (.finite neg n) ∧ (neg = true → n = 0)

/-- A number whose digits write the integer. -/
theorem strtod_natural {d : Decimal} {n : Nat} (hvalue : d.value = n) (hn : n < 2 ^ 53) :
    strtod d = .finite d.neg n := by
  rw [strtod, hvalue]
  rcases Nat.eq_zero_or_pos n with rfl | hpos
  · rw [Nat.cast_zero, round_zero]
  · refine round_exact (m := n) (k := 0) (by exact_mod_cast hpos) (by simp) (by omega)
      (by decide) ?_
    calc (n : ℚ) < 2 ^ 53 := by exact_mod_cast hn
      _ < 2 ^ 1024 := pow_lt_pow_right₀ (by norm_num) (by norm_num)

variable {outOfRange : Double → BitVec 64} {v : Value} {n : Nat}

theorem castU64_natural {neg : Bool} (hneg : neg = true → n = 0) (hn : n < 2 ^ 53) :
    castU64 outOfRange (.finite neg n) = BitVec.ofNat 64 n := by
  unfold castU64
  dsimp only
  rw [show ⌊(n : ℚ)⌋.toNat = n from by rw [Int.floor_natCast, Int.toNat_natCast]]
  exact if_pos ⟨hneg, by omega⟩

theorem asU64_natural (hv : IsNatural v n) (hn : n < 2 ^ 53) :
    asU64 outOfRange v = .ok (BitVec.ofNat 64 n) := by
  obtain ⟨neg, rfl, hneg⟩ := hv
  rw [asU64, castU64_natural hneg hn]

theorem requireU64_natural {ctx : String} (hv : IsNatural v n) (hn : n < 2 ^ 53) :
    requireU64 outOfRange v ctx = .ok (BitVec.ofNat 64 n) := by
  obtain ⟨neg, rfl, hneg⟩ := hv
  rw [requireU64, castU64_natural hneg hn]

/-- The low half of an integer. -/
theorem narrow_iff (hn : n < 2 ^ 53) :
    ((BitVec.ofNat 64 n).setWidth 32).toNat = n ↔ n < 2 ^ 32 := by
  rw [BitVec.toNat_setWidth, BitVec.toNat_ofNat, Nat.mod_eq_of_lt (show n < 2 ^ 64 by omega)]
  constructor
  · intro h
    rw [← h]
    exact Nat.mod_lt _ (by decide)
  · exact Nat.mod_eq_of_lt

/-- Four bytes of an integer. -/
theorem word_iff (hn : n < 2 ^ 53) :
    (unpackLe (leBytes (BitVec.ofNat 64 n).toNat 4)).toNat = n ↔ n < 2 ^ 32 := by
  rw [← packLe_eq_leBytes, unpackLe_packLe, lowBytes, BitVec.toNat_ofNat, BitVec.toNat_ofNat,
    Nat.mod_eq_of_lt (show n < 2 ^ 64 by omega)]
  rw [Nat.mod_eq_of_lt (Nat.lt_of_le_of_lt (Nat.mod_le n (2 ^ (8 * 4))) (by omega))]
  constructor
  · intro h
    rw [← h]
    exact Nat.mod_lt _ (by decide)
  · exact Nat.mod_eq_of_lt

/-! ### Dimensions -/

/-- The value a document has for a component. -/
def dimValue (v : Value) (i : Fin 3) : Option Value :=
  match v with
  | .object o => Json.find? (["x", "y", "z"].get i).toList o
  | .array a => a[i.val]?
  | _ => none

def dimComponent (d : Dim3) (i : Fin 3) : BitVec 32 := [d.x, d.y, d.z].get i

/-- Every component is the low half of its number. -/
theorem parseDim3_narrow {ctx : String} {d : Dim3} (hparse : parseDim3 outOfRange v ctx = .ok d)
    {i : Fin 3} {w : Value} (hw : dimValue v i = some w) (hnat : IsNatural w n) (hn : n < 2 ^ 53) :
    dimComponent d i = (BitVec.ofNat 64 n).setWidth 32 := by
  have hsame : ∀ {m : BitVec 64}, .ok m = requireU64 outOfRange w ctx → m = BitVec.ofNat 64 n := by
    intro m hm
    rw [requireU64_natural hnat hn] at hm
    exact Except.ok.inj hm
  unfold parseDim3 at hparse
  split at hparse
  · next o =>
    obtain ⟨xv, hxv, hparse⟩ := bind_ok.mp hparse
    obtain ⟨x, hx, hparse⟩ := bind_ok.mp hparse
    obtain ⟨yv, hyv, hparse⟩ := bind_ok.mp hparse
    obtain ⟨y, hy, hparse⟩ := bind_ok.mp hparse
    obtain ⟨zv, hzv, hparse⟩ := bind_ok.mp hparse
    obtain ⟨z, hz, hok⟩ := bind_ok.mp hparse
    cases hok
    match i with
    | 0 =>
        obtain rfl := Option.some.inj ((requireField_ok.mp hxv).symm.trans hw)
        rw [hsame hx.symm]
        rfl
    | 1 =>
        obtain rfl := Option.some.inj ((requireField_ok.mp hyv).symm.trans hw)
        rw [hsame hy.symm]
        rfl
    | 2 =>
        obtain rfl := Option.some.inj ((requireField_ok.mp hzv).symm.trans hw)
        rw [hsame hz.symm]
        rfl
  · next a b c =>
    obtain ⟨x, hx, hparse⟩ := bind_ok.mp hparse
    obtain ⟨y, hy, hparse⟩ := bind_ok.mp hparse
    obtain ⟨z, hz, hok⟩ := bind_ok.mp hparse
    cases hok
    match i with
    | 0 =>
        obtain rfl := Option.some.inj hw
        rw [asU64_natural hnat hn] at hx
        cases hx
        rfl
    | 1 =>
        obtain rfl := Option.some.inj hw
        rw [asU64_natural hnat hn] at hy
        cases hy
        rfl
    | 2 =>
        obtain rfl := Option.some.inj hw
        rw [asU64_natural hnat hn] at hz
        cases hz
        rfl
  · cases hparse
  · cases hparse

/-! ### Key order in a document -/

theorem sorted_of_find {k : Text} {o : Object} (ho : Json.SortedMembers o)
    (hfind : Json.find? k o = some v) : Json.SortedValue v := by
  induction o with
  | nil => cases hfind
  | cons m o ih =>
      unfold Json.find? at hfind
      split at hfind
      · obtain rfl := Option.some.inj hfind
        exact ho.1
      · exact ih ho.2 hfind

theorem sorted_of_mem {o : Object} {m : Text × Value} (ho : Json.SortedMembers o) (hm : m ∈ o) :
    Json.SortedValue m.2 := by
  induction o with
  | nil => exact absurd hm List.not_mem_nil
  | cons m' o ih =>
      rcases List.mem_cons.mp hm with rfl | hm
      · exact ho.1
      · exact ih ho.2 hm

theorem sorted_item {a : List Value} (ha : Json.SortedItems a) (hv : v ∈ a) :
    Json.SortedValue v := by
  induction a with
  | nil => exact absurd hv List.not_mem_nil
  | cons w a ih =>
      rcases List.mem_cons.mp hv with rfl | hv
      · exact ha.1
      · exact ih ha.2 hv

theorem nodup_of_sorted {o : Object} (ho : Json.Sorted o) : (o.map Prod.fst).Nodup :=
  List.Pairwise.imp (fun hlt => ne_of_lt hlt) ho

section Document
variable {env : Env} {rt : Runtime} {path : Text} {p : Prepared} {decls : Decls} {res : Resources}
  {cmdv cv : Value} {kp : KernelPayload}

theorem readDecls_sorted (hdecls : readDecls env path = .ok decls)
    (hin : InStreams decls.streams cmdv) : Json.SortedValue cmdv := by
  obtain ⟨text, -, hdecls⟩ := bind_ok.mp hdecls
  obtain ⟨root, hroot, hdecls⟩ := bind_ok.mp hdecls
  obtain ⟨o, ho, hdecls⟩ := bind_ok.mp hdecls
  have hsorted : Json.SortedMembers o := by
    rw [requireObject_ok.mp ho] at hroot
    unfold parseRoot at hroot
    split at hroot
    · next v hv =>
      cases hroot
      exact ((Json.parse_ensures text).ok _ hv).1
    · cases hroot
    · cases hroot
  obtain ⟨buffersv, -, hdecls⟩ := bind_ok.mp hdecls
  obtain ⟨buffers, -, hdecls⟩ := bind_ok.mp hdecls
  obtain ⟨hostv, -, hdecls⟩ := bind_ok.mp hdecls
  obtain ⟨host, -, hdecls⟩ := bind_ok.mp hdecls
  obtain ⟨devicev, -, hdecls⟩ := bind_ok.mp hdecls
  obtain ⟨device, -, hdecls⟩ := bind_ok.mp hdecls
  obtain ⟨hosts, -, hdecls⟩ := bind_ok.mp hdecls
  obtain ⟨devices, -, hdecls⟩ := bind_ok.mp hdecls
  obtain ⟨modsv, -, hdecls⟩ := bind_ok.mp hdecls
  obtain ⟨mods, -, hdecls⟩ := bind_ok.mp hdecls
  obtain ⟨modules, -, hdecls⟩ := bind_ok.mp hdecls
  obtain ⟨streamsv, hstreamsv, hdecls⟩ := bind_ok.mp hdecls
  obtain ⟨streams, hstreams, hdecls⟩ := bind_ok.mp hdecls
  obtain ⟨eventNames, -, hok⟩ := bind_ok.mp hdecls
  cases hok
  obtain ⟨stream, hstream, so, cmds, hso, hcmds, hcmdv⟩ := hin
  have hstreamsv := sorted_of_find hsorted (requireField_ok.mp hstreamsv)
  rw [asObject_ok.mp hstreams] at hstreamsv
  have hstreamv := sorted_of_mem hstreamsv.1 hstream
  rw [hso] at hstreamv
  exact sorted_item (sorted_of_find hstreamv.1 hcmds) hcmdv

theorem parseCommand_kernel {kind : CommandKind}
    (hparse : parseCommand env res (.object [("kernel".toList, cv)]) = .ok kind) :
    ∃ kp, kind = .kernel kp ∧ parseKernel env res cv = .ok kp := by
  obtain ⟨⟨ck, cv'⟩, hmember, hparse⟩ := bind_ok.mp hparse
  cases commandMember_ok.mp hmember
  obtain ⟨kp, hkernel, hok⟩ := bind_ok.mp hparse
  cases hok
  exact ⟨kp, rfl, hkernel⟩

/-- What a kernel command has of its payload. -/
structure KernelOf (env : Env) (cv : Value) (kp : KernelPayload) : Prop where
  grid : ∃ gv, cv.get? "grid_dim".toList = some gv
    ∧ parseDim3 env.outOfRange gv "kernel.grid_dim" = .ok kp.launch.gridDim
  block : ∃ bv, cv.get? "block_dim".toList = some bv
    ∧ parseDim3 env.outOfRange bv "kernel.block_dim" = .ok kp.launch.blockDim
  args : parseArgs env cv = .ok kp.args

theorem parseKernel_of (hparse : parseKernel env res cv = .ok kp) : KernelOf env cv kp := by
  obtain ⟨ko, hko, hparse⟩ := bind_ok.mp hparse
  obtain ⟨mv, -, hparse⟩ := bind_ok.mp hparse
  obtain ⟨moduleName, -, hparse⟩ := bind_ok.mp hparse
  obtain ⟨ev, -, hparse⟩ := bind_ok.mp hparse
  obtain ⟨entry, -, hparse⟩ := bind_ok.mp hparse
  obtain ⟨gv, hgv, hparse⟩ := bind_ok.mp hparse
  obtain ⟨gridDim, hgrid, hparse⟩ := bind_ok.mp hparse
  obtain ⟨bv, hbv, hparse⟩ := bind_ok.mp hparse
  obtain ⟨blockDim, hblock, hparse⟩ := bind_ok.mp hparse
  split at hparse
  · cases hparse
  · obtain ⟨args, hargs, hok⟩ := bind_ok.mp hparse
    cases hok
    rw [requireObject_ok.mp hko] at hargs ⊢
    exact ⟨⟨gv, requireField_ok.mp hgv, hgrid⟩, ⟨bv, requireField_ok.mp hbv, hblock⟩, hargs⟩

/-! ### Arguments -/

/-- The value a kernel command has for a `u32` argument. -/
def argNumber (cv : Value) (name : Text) : Option Value := do
  let args ← cv.get? "args".toList
  let arg ← args.get? name
  arg.get? "u32".toList

theorem parseArgValue_u32 {ctx : String} {av : ArgValue} {w : Value}
    (hparse : parseArgValue env.outOfRange v ctx = .ok av) (hw : v.get? "u32".toList = some w)
    (hnat : IsNatural w n) (hn : n < 2 ^ 53) : av = .u32 (BitVec.ofNat 64 n) := by
  obtain ⟨o, ho, hrest⟩ := bind_ok.mp hparse
  obtain ⟨⟨k, vv⟩, hone, hkind⟩ := bind_ok.mp hrest
  rw [requireObject_ok.mp ho] at hw
  have ho' : o = [(k, vv)] := by
    unfold requireOne at hone
    split at hone
    · cases hone
      rfl
    · cases hone
  rw [ho'] at hw
  change Json.find? "u32".toList [(k, vv)] = some w at hw
  unfold Json.find? at hw
  split at hw
  · next hk =>
    obtain rfl := Option.some.inj hw
    dsimp only at hkind
    rw [← hk, if_pos (beq_self_eq_true _)] at hkind
    obtain ⟨m, hm, hok⟩ := bind_ok.mp hkind
    rw [requireU64_natural hnat hn] at hm
    cases hm
    exact (Except.ok.inj hok).symm
  · cases hw

/-- The reader of one argument. -/
def readArg (env : Env) (entry : Text × Value) : Except Throw (Text × ArgValue) := do
  return (entry.1, ← parseArgValue env.outOfRange entry.2 "kernel.args")

theorem readArg_ok {entry : Text × Value} {arg : Text × ArgValue} :
    readArg env entry = .ok arg
      ↔ arg.1 = entry.1 ∧ parseArgValue env.outOfRange entry.2 "kernel.args" = .ok arg.2 := by
  constructor
  · intro hread
    obtain ⟨a, ha, hok⟩ := bind_ok.mp hread
    cases hok
    exact ⟨rfl, ha⟩
  · rintro ⟨hname, hparse⟩
    exact bind_ok.mpr ⟨arg.2, hparse, congrArg _ (Prod.ext hname.symm rfl)⟩

theorem names_readArgs {members : Object} {args : List (Text × ArgValue)}
    (hall : List.Forall₂ (fun m arg => readArg env m = .ok arg) members args) :
    args.map Prod.fst = members.map Prod.fst := by
  induction hall with
  | nil => rfl
  | cons hread _ ih => rw [List.map_cons, List.map_cons, ih, (readArg_ok.mp hread).1]

theorem parseArgs_ok {args : List (Text × ArgValue)} (hparse : parseArgs env cv = .ok args) :
    ∃ members, cv.get? "args".toList = some (.object members)
      ∧ List.Forall₂ (fun m arg => readArg env m = .ok arg) members args := by
  unfold parseArgs at hparse
  split at hparse
  · next ko =>
    split at hparse
    · next av hav =>
      obtain ⟨members, hmembers, hread⟩ := bind_ok.mp hparse
      rw [requireObject_ok.mp hmembers] at hav
      exact ⟨members, hav, mapM_ok.mp hread⟩
    · cases hparse
  · cases hparse

/-- The arguments have different names, and each `u32` number is there as 64 bits. -/
theorem parseArgs_u32 {args : List (Text × ArgValue)} (hsorted : Json.SortedValue cv)
    (hparse : parseArgs env cv = .ok args) :
    (args.map Prod.fst).Nodup ∧ ∀ name w, argNumber cv name = some w → IsNatural w n → n < 2 ^ 53 →
      (name, .u32 (BitVec.ofNat 64 n)) ∈ args := by
  obtain ⟨members, hget, hall⟩ := parseArgs_ok hparse
  refine ⟨?_, fun name w hw hnat hn => ?_⟩
  · rw [names_readArgs hall]
    cases cv with
    | object ko => exact nodup_of_sorted (sorted_of_find hsorted.1 hget).2
    | null => cases hget
    | bool b => cases hget
    | number d => cases hget
    | string s => cases hget
    | array a => cases hget
  · unfold argNumber at hw
    rw [hget] at hw
    obtain ⟨args', heq, hw⟩ := Option.bind_eq_some_iff.mp hw
    cases heq
    obtain ⟨argv, hargv, hu32⟩ := Option.bind_eq_some_iff.mp hw
    obtain ⟨⟨name', a⟩, hmem, hread⟩ := (forall₂_mem hall).1 _ (Json.mem_of_find?_eq_some hargv)
    obtain ⟨hname, ha⟩ := readArg_ok.mp hread
    dsimp only at hname ha
    rw [hname, parseArgValue_u32 ha hu32 hnat hn] at hmem
    exact hmem

end Document

/-! ### Layouts of the parser -/

/-- Parameters that were added one after the other, each of the size of its type. -/
def Grown (params : List ParamDesc) : Prop :=
  ∃ rest : List ParamDesc, (∀ p ∈ rest, p.Natural) ∧ params = rest.foldl addParam []

theorem Grown.nil : Grown [] := ⟨[], fun _ h => absurd h List.not_mem_nil, rfl⟩

theorem Grown.snoc {params : List ParamDesc} {p : ParamDesc} (h : Grown params) (hp : p.Natural) :
    Grown (addParam params p) := by
  obtain ⟨rest, hrest, rfl⟩ := h
  refine ⟨rest ++ [p], fun q hq => ?_, by rw [List.foldl_append]; rfl⟩
  rcases List.mem_append.mp hq with hq | hq
  · exact hrest q hq
  · obtain rfl := List.mem_singleton.mp hq
    exact hp

theorem Grown.natural {params : List ParamDesc} (h : Grown params) : ∀ p ∈ params, p.Natural := by
  obtain ⟨rest, hrest, rfl⟩ := h
  refine forall_addParams rest (fun params p hp => ?_) fun _ hp => absurd hp List.not_mem_nil
  exact ⟨(hrest p hp).size, (hrest p hp).align⟩

theorem Grown.laid {params : List ParamDesc} (h : Grown params)
    (hroom : paramsEndFrom 0 (params.map ParamDesc.type) < 2 ^ 32) :
    Laid params (paramsEndFrom 0 (params.map ParamDesc.type)) := by
  obtain ⟨rest, hrest, rfl⟩ := h
  have htypes : (rest.foldl addParam []).map ParamDesc.type = rest.map ParamDesc.type :=
    addParams_map ParamDesc.type (fun _ _ => rfl) [] rest
  rw [htypes] at hroom ⊢
  exact Laid.nil.addParams hrest hroom

theorem natural_parseParamDecl {t : Text} {p : ParamDesc} (hparse : parseParamDecl t = some p) :
    p.Natural := by
  unfold parseParamDecl at hparse
  dsimp only at hparse
  repeat' split at hparse
  all_goals first
    | cases hparse; exact ⟨rfl, rfl⟩
    | cases hparse

theorem signatureLine_grown {st : ParseState} (h : Grown st.cur.params) (t : Text) :
    Grown (signatureLine st t).cur.params := by
  unfold signatureLine
  dsimp only
  split
  · next p hp => exact h.snoc (natural_parseParamDecl hp)
  · exact h

/-- Every kernel of a module has a grown layout. -/
theorem grown_parsed {order : AliasOrder} {text : Text} {fileName : String} {m : ModuleTokens}
    (hparse : parsePtxTextTokens order text fileName = .ok m) : ∀ k ∈ m.kernels,
      Grown k.params := by
  obtain ⟨st, hrun, hm⟩ := bind_ok.mp hparse
  cases hm
  have hinv := foldlM_invariant
    (P := fun st : ParseState => Grown st.cur.params ∧ ∀ k ∈ st.kernels, Grown k.params)
    (fun st line st' hinv hline => ?_) ⟨Grown.nil, fun _ h => absurd h List.not_mem_nil⟩ hrun
  · exact hinv.2
  · obtain ⟨hopen, hkernels⟩ := hinv
    cases parseLine_moves hline with
    | skip _ => exact ⟨hopen, hkernels⟩
    | header _ => exact ⟨Grown.nil, hkernels⟩
    | close k _ _ hclose =>
        refine ⟨hopen, fun k' hk' => ?_⟩
        rcases List.mem_append.mp hk' with hk' | hk'
        · exact hkernels k' hk'
        · obtain rfl := List.mem_singleton.mp hk'
          rw [(closeKernel_signature hclose).2]
          exact hopen
    | body _ _ _ _ _ => exact ⟨hopen, hkernels⟩
    | signature _ _ _ _ _ => exact ⟨signatureLine_grown hopen _, hkernels⟩

/-- A `u32` argument is read back as four bytes, from whatever kernel it was packed for. -/
theorem read_u32 {env : Env} {mod : ModuleDecl} {entry name : Text} {args : List (Text × ArgValue)}
    {devBufs : DeviceBufs} {ka : KernelArgs} {w : BitVec 64}
    (hpack : packKernelArgs env mod entry args devBufs = .ok ka) (hargs : (args.map Prod.fst).Nodup)
    (harg : (name, .u32 w) ∈ args) (hroom : paramsEndFrom 0 (ka.layout.map ParamDesc.type) < 2 ^ 32)
    (mgr : AddrSpaceManager) :
    (mgr.setParams ka).readParamSymbol (quoted name) 4 = some (leBytes w.toNat 4) := by
  unfold packKernelArgs at hpack
  split at hpack
  · cases hpack
  · next m hm =>
    split at hpack
    · cases hpack
    · next k hk =>
      have hgrown : Grown k.params := by
        unfold parsePtxFileTokens at hm
        split at hm
        · cases hm
        · exact grown_parsed hm k (bindKernelByName_name hk).1
      have hlayout : ka.layout = k.params := by
        unfold packLayout at hpack
        split at hpack
        · cases hpack
        · split at hpack
          · cases hpack
          · cases hpack
            rfl
      rw [hlayout] at hroom
      obtain ⟨hknown, -, rfl⟩ := (packLayout_iff (hgrown.laid hroom) hgrown.natural).mp hpack
      obtain ⟨q, hfind, hfits⟩ := hknown _ harg
      have htype : q.type = .u32 := hfits
      have hread := readParamSymbol_packed env.argOrder (hgrown.laid hroom) hgrown.natural hargs
        hknown hfind harg mgr
      rw [htype] at hread
      exact hread

/-! ### Configurations -/

section Config
variable {cfg cfg' : AppConfig} {o : Object} {key : String}

theorem optField_ok {α : Type} {read : Value → Except Throw α} {set : α → AppConfig → AppConfig}
    (hload : optField o key read set cfg = .ok cfg') :
    (Json.find? key.toList o = none ∧ cfg' = cfg)
      ∨ ∃ v a, Json.find? key.toList o = some v ∧ read v = .ok a ∧ cfg' = set a cfg := by
  unfold optField at hload
  split at hload
  · next v hv =>
    obtain ⟨a, ha, hok⟩ := bind_ok.mp hload
    exact .inr ⟨v, a, hv, ha, (Except.ok.inj hok).symm⟩
  · next hnone => exact .inl ⟨hnone, (Except.ok.inj hload).symm⟩

theorem optSection_ok {load : Object → AppConfig → Except Throw AppConfig}
    (hload : optSection o key load cfg = .ok cfg') :
    (Json.find? key.toList o = none ∧ cfg' = cfg)
      ∨ ∃ so, Json.find? key.toList o = some (.object so) ∧ load so cfg = .ok cfg' := by
  unfold optSection at hload
  split at hload
  · next v hv =>
    obtain ⟨so, hso, hok⟩ := bind_ok.mp hload
    rw [asObject_ok.mp hso] at hv
    exact .inr ⟨so, hv, hok⟩
  · next hnone => exact .inl ⟨hnone, (Except.ok.inj hload).symm⟩

/-- A field that the setter leaves is left, whether it is there or not. -/
theorem optField_keeps {α β : Type} {read : Value → Except Throw α}
    {set : α → AppConfig → AppConfig}
    (get : AppConfig → β) (hload : optField o key read set cfg = .ok cfg')
    (hset : ∀ a c, get (set a c) = get c) : get cfg' = get cfg := by
  rcases optField_ok hload with ⟨-, rfl⟩ | ⟨v, a, -, -, rfl⟩
  · rfl
  · exact hset a cfg

theorem optSection_keeps {β : Type} {load : Object → AppConfig → Except Throw AppConfig}
    (get : AppConfig → β) (hkeeps : ∀ so c c', load so c = .ok c' → get c' = get c)
    (hload : optSection o key load cfg = .ok cfg') : get cfg' = get cfg := by
  rcases optSection_ok hload with ⟨-, rfl⟩ | ⟨so, -, hload⟩
  · rfl
  · exact hkeeps so cfg cfg' hload

/-- The two 32-bit numbers. -/
def widths (cfg : AppConfig) : Nat × Nat := (cfg.sim.warpSize, cfg.sim.smCount)

theorem loadMemory_keeps (so : Object) (c c' : AppConfig) (hload : loadMemory so c = .ok c') :
    widths c' = widths c := optField_keeps widths hload fun _ _ => rfl

theorem loadComponents_keeps (so : Object) (c c' : AppConfig)
    (hload : loadComponents so c = .ok c') : widths c' = widths c := by
  obtain ⟨c₁, h₁, hload⟩ := bind_ok.mp hload
  obtain ⟨c₂, h₂, h₃⟩ := bind_ok.mp hload
  calc widths c' = widths c₂ := optField_keeps widths h₃ fun _ _ => rfl
    _ = widths c₁ := optField_keeps widths h₂ fun _ _ => rfl
    _ = widths c := optField_keeps widths h₁ fun _ _ => rfl

theorem widths_setProfile (s : Text) (c : AppConfig) : widths (setProfile s c) = widths c := by
  unfold setProfile
  split <;> rfl

theorem loadArch_keeps (so : Object) (c c' : AppConfig) (hload : loadArch so c = .ok c') :
    widths c' = widths c := by
  obtain ⟨c₁, h₁, h₂⟩ := bind_ok.mp hload
  calc widths c' = widths c₁ := optSection_keeps widths loadComponents_keeps h₂
    _ = widths c := optField_keeps widths h₁ widths_setProfile

theorem loadObservability_keeps (so : Object) (c c' : AppConfig)
    (hload : loadObservability outOfRange so c = .ok c') : widths c' = widths c := by
  obtain ⟨c₁, h₁, h₂⟩ := bind_ok.mp hload
  calc widths c' = widths c₁ := optField_keeps widths h₂ fun _ _ => rfl
    _ = widths c := optField_keeps widths h₁ fun _ _ => rfl

/-- A number of the section is narrowed into its field. -/
theorem loadSim_narrow (hload : loadSim outOfRange o cfg = .ok cfg') (hn : n < 2 ^ 53) :
    (∀ v, Json.find? "warp_size".toList o = some v → IsNatural v n →
        cfg'.sim.warpSize = toU32 (BitVec.ofNat 64 n))
      ∧ ∀ v, Json.find? "sm_count".toList o = some v → IsNatural v n →
        cfg'.sim.smCount = toU32 (BitVec.ofNat 64 n) := by
  obtain ⟨c₁, h₁, hload⟩ := bind_ok.mp hload
  obtain ⟨c₂, h₂, hload⟩ := bind_ok.mp hload
  obtain ⟨c₃, h₃, hload⟩ := bind_ok.mp hload
  obtain ⟨c₄, h₄, hload⟩ := bind_ok.mp hload
  obtain ⟨c₅, h₅, hload⟩ := bind_ok.mp hload
  obtain ⟨c₆, h₆, hload⟩ := bind_ok.mp hload
  obtain ⟨c₇, h₇, h₈⟩ := bind_ok.mp hload
  have hrest : widths cfg' = widths c₃ := by
    calc widths cfg' = widths c₇ := optField_keeps widths h₈ fun _ _ => rfl
      _ = widths c₆ := optField_keeps widths h₇ fun _ _ => rfl
      _ = widths c₅ := optField_keeps widths h₆ fun _ _ => rfl
      _ = widths c₄ := optField_keeps widths h₅ fun _ _ => rfl
      _ = widths c₃ := optField_keeps widths h₄ fun _ _ => rfl
  obtain ⟨hwarp, hsm⟩ := Prod.mk.inj hrest
  constructor
  · intro v hv hnat
    have hkept : c₃.sim.warpSize = c₁.sim.warpSize :=
      (optField_keeps (fun c => c.sim.warpSize) h₃ fun _ _ => rfl).trans
        (optField_keeps (fun c => c.sim.warpSize) h₂ fun _ _ => rfl)
    rw [hwarp, hkept]
    rcases optField_ok h₁ with ⟨hnone, -⟩ | ⟨v', a, hv', ha, rfl⟩
    · rw [hv] at hnone
      cases hnone
    · obtain rfl := Option.some.inj (hv.symm.trans hv')
      rw [asU64_natural hnat hn] at ha
      rw [← Except.ok.inj ha]
      rfl
  · intro v hv hnat
    rw [hsm]
    rcases optField_ok h₃ with ⟨hnone, -⟩ | ⟨v', a, hv', ha, rfl⟩
    · rw [hv] at hnone
      cases hnone
    · obtain rfl := Option.some.inj (hv.symm.trans hv')
      rw [asU64_natural hnat hn] at ha
      rw [← Except.ok.inj ha]
      rfl

/-- The value a configuration has in its `sim` section. -/
def simValue (root : Value) (key : String) : Option Value := do
  let sim ← root.get? "sim".toList
  sim.get? key.toList

theorem loadAppConfigRoot_narrow {root : Value}
    (hload : loadAppConfigRoot outOfRange root = .ok cfg') (hn : n < 2 ^ 53) :
    (∀ v, simValue root "warp_size" = some v → IsNatural v n →
        cfg'.sim.warpSize = toU32 (BitVec.ofNat 64 n))
      ∧ ∀ v, simValue root "sm_count" = some v → IsNatural v n →
        cfg'.sim.smCount = toU32 (BitVec.ofNat 64 n) := by
  obtain ⟨o, ho, hload⟩ := bind_ok.mp hload
  obtain ⟨c₁, h₁, hload⟩ := bind_ok.mp hload
  obtain ⟨c₂, h₂, hload⟩ := bind_ok.mp hload
  obtain ⟨c₃, h₃, h₄⟩ := bind_ok.mp hload
  have hrest : widths cfg' = widths c₁ := by
    calc widths cfg' = widths c₃ := optSection_keeps widths loadObservability_keeps h₄
      _ = widths c₂ := optSection_keeps widths loadArch_keeps h₃
      _ = widths c₁ := optSection_keeps widths loadMemory_keeps h₂
  obtain ⟨hwarp, hsm⟩ := Prod.mk.inj hrest
  have hsection : ∀ {key : String} {v : Value}, simValue root key = some v →
      ∃ so, Json.find? "sim".toList o = some (.object so) ∧ Json.find? key.toList so = some v := by
    intro key v hv
    rw [asObject_ok.mp ho] at hv
    obtain ⟨simv, hsim, hfield⟩ := Option.bind_eq_some_iff.mp hv
    cases simv with
    | object so => exact ⟨so, hsim, hfield⟩
    | null => cases hfield
    | bool b => cases hfield
    | number d => cases hfield
    | string s => cases hfield
    | array a => cases hfield
  have hloaded : ∀ {so : Object}, Json.find? "sim".toList o = some (.object so) →
      loadSim outOfRange so {} = .ok c₁ := by
    intro so hso
    rcases optSection_ok h₁ with ⟨hnone, -⟩ | ⟨so', hso', hload⟩
    · rw [hso] at hnone
      cases hnone
    · rw [hso] at hso'
      cases hso'
      exact hload
  constructor
  · intro v hv hnat
    obtain ⟨so, hso, hfield⟩ := hsection hv
    rw [hwarp]
    exact (loadSim_narrow (hloaded hso) hn).1 v hfield hnat
  · intro v hv hnat
    obtain ⟨so, hso, hfield⟩ := hsection hv
    rw [hsm]
    exact (loadSim_narrow (hloaded hso) hn).2 v hfield hnat

end Config

/-! ### The law -/

/-- The run uses a number of the kernel's payload exactly when it is below `2 ^ 32`. -/
structure KernelNumbers (env : Env) (devBufs : DeviceBufs) (cv : Value)
    (kp : KernelPayload) (n : Nat) : Prop where
  grid : ∀ gv i v, cv.get? "grid_dim".toList = some gv → dimValue gv i = some v → IsNatural v n →
    ((dimComponent kp.launch.gridDim i).toNat = n ↔ n < 2 ^ 32)
  block : ∀ bv i v, cv.get? "block_dim".toList = some bv → dimValue bv i = some v → IsNatural v n →
    ((dimComponent kp.launch.blockDim i).toNat = n ↔ n < 2 ^ 32)
  arg : ∀ ka, packKernelArgs env kp.mod kp.entry kp.args devBufs = .ok ka →
    paramsEndFrom 0 (ka.layout.map ParamDesc.type) < 2 ^ 32 →
      ∀ name v, argNumber cv name = some v → IsNatural v n → ∀ mgr : AddrSpaceManager,
        ∃ bytes, (mgr.setParams ka).readParamSymbol (quoted name) 4 = some bytes
          ∧ ((unpackLe bytes).toNat = n ↔ n < 2 ^ 32)

/-- The run uses a number of the `sim` section exactly when it is below `2 ^ 32`. -/
structure ConfigNumbers (root : Value) (cfg : AppConfig) (n : Nat) : Prop where
  warpSize : ∀ v, simValue root "warp_size" = some v → IsNatural v n →
    (cfg.sim.warpSize = n ↔ n < 2 ^ 32)
  smCount : ∀ v, simValue root "sm_count" = some v → IsNatural v n →
    (cfg.sim.smCount = n ↔ n < 2 ^ 32)

theorem kernelNumbers_of {env : Env} {devBufs : DeviceBufs} {cv : Value} {kp : KernelPayload}
    (hkernel : KernelOf env cv kp) (hsorted : Json.SortedValue cv) (hn : n < 2 ^ 53) :
    KernelNumbers env devBufs cv kp n := by
  refine ⟨fun gv i v hgv hv hnat => ?_, fun bv i v hbv hv hnat => ?_,
    fun ka hpack hroom name v hv hnat mgr => ?_⟩
  · obtain ⟨gv', hgv', hgrid⟩ := hkernel.grid
    obtain rfl := Option.some.inj (hgv.symm.trans hgv')
    rw [parseDim3_narrow hgrid hv hnat hn]
    exact narrow_iff hn
  · obtain ⟨bv', hbv', hblock⟩ := hkernel.block
    obtain rfl := Option.some.inj (hbv.symm.trans hbv')
    rw [parseDim3_narrow hblock hv hnat hn]
    exact narrow_iff hn
  · obtain ⟨hnodup, hargs⟩ := parseArgs_u32 hsorted hkernel.args
    exact ⟨_, read_u32 hpack hnodup (hargs name v hv hnat hn) hroom mgr, word_iff hn⟩

/-- **Numbers of documents.** For an integer below `2 ^ 53` that a document gives for a dimension, a
`u32` argument, the warp size or the number of SMs: once the document is accepted, the run uses that
integer exactly when it is below `2 ^ 32`. -/
theorem numbers_exact_iff (hn : n < 2 ^ 53) :
    (∀ d : Decimal, d.value = n → strtod d = .finite d.neg n)
    ∧ (∀ env rt path p, prepare env rt path = .ok p → ∃ decls, readDecls env path = .ok decls
      ∧ ∀ cv, InStreams decls.streams (.object [("kernel".toList, cv)]) →
        ∃ sid, ∃ cmd ∈ p.queue sid, ∃ kp, cmd.kind = .kernel kp ∧
          KernelNumbers env p.devBufs cv kp n)
    ∧ ∀ outOfRange text cfg, loadAppConfigJsonText outOfRange text = .ok cfg →
      ∃ root, parseRoot text = .ok root ∧ ConfigNumbers root cfg n := by
  refine ⟨fun d hvalue => strtod_natural hvalue hn, fun env rt path p hprepare => ?_,
    fun outOfRange text cfg hload => ?_⟩
  · obtain ⟨decls, res, hdecls, hp⟩ := prepare_parts hprepare
    refine ⟨decls, hdecls, fun cv hin => ?_⟩
    obtain ⟨sid, cmd, hcmd, hread⟩ := hp.commands.1 _ hin
    obtain ⟨kp, hkind, hkernel⟩ := parseCommand_kernel hread.2
    have hsorted := (readDecls_sorted hdecls hin).1.1
    exact ⟨sid, cmd, hcmd, kp, hkind, kernelNumbers_of (parseKernel_of hkernel) hsorted hn⟩
  · obtain ⟨root, hroot, hload⟩ := bind_ok.mp hload
    obtain ⟨hwarp, hsm⟩ := loadAppConfigRoot_narrow hload hn
    refine ⟨root, hroot, fun v hv hnat => ?_, fun v hv hnat => ?_⟩
    · rw [hwarp v hv hnat]
      exact narrow_iff hn
    · rw [hsm v hv hnat]
      exact narrow_iff hn

/-- The payload of a kernel command with a one-dimensional grid. -/
def wideKernel (n : Nat) : Value :=
  .object
    [("args".toList, .object []),
      ("block_dim".toList, .array [natural 32, natural 1, natural 1]),
      ("entry".toList, .string ['k']),
      ("grid_dim".toList, .array [natural n, natural 1, natural 1]),
      ("module".toList, .string ['m'])]

def kernelDoc (n : Nat) : Value :=
  .object
    [("buffers".toList, .object [("device".toList, .object []), ("host".toList, .object [])]),
      ("modules".toList, .object [(['m'], .object
        [("inst_desc".toList, .string ['d']), ("ptx".toList, .string ['p']),
          ("ptx_isa".toList, .string ['i'])])]),
      ("streams".toList, .object [(['s'], .object
        [("commands".toList, .array [.object [("kernel".toList, wideKernel n)]])])])]

/-- What a configuration has to say of the executor. -/
def simConfig (warpSize smCount : Nat) : Value :=
  .object [("sim".toList, .object
    [("sm_count".toList, natural smCount), ("warp_size".toList, natural warpSize)])]

theorem readsBack_three {a b c : Value} (ha : Json.ReadsBack a) (hb : Json.ReadsBack b)
    (hc : Json.ReadsBack c) : Json.ReadsBack (.array [a, b, c]) := by
  refine .array ?_
  simp only [List.forall_mem_cons, List.not_mem_nil, false_imp_iff, implies_true, and_true]
  exact ⟨ha, hb, hc⟩

theorem readsBack_kernelDoc {n : Nat} (hn : n < 2 ^ 53) (hsix : SixDigits n) :
    Json.ReadsBack (kernelDoc n) := by
  have hempty : Json.ReadsBack (.object []) := .object (fun _ h => absurd h List.not_mem_nil) .nil
  have hsmall : ∀ {k : Nat}, k < 10 ^ 6 → Json.ReadsBack (natural k) := readsBack_natural
  have hkernel : Json.ReadsBack (wideKernel n) := by
    refine .object ?_
      (sorted_of_keys ["args", "block_dim", "entry", "grid_dim", "module"] rfl (by decide))
    simp only [List.forall_mem_cons, List.not_mem_nil, false_imp_iff, implies_true, and_true]
    exact ⟨hempty, readsBack_three (hsmall (by decide)) (hsmall (by decide)) (hsmall (by decide)),
      .string _, readsBack_three (.natural hn hsix) (hsmall (by decide)) (hsmall (by decide)),
        .string _⟩
  have hmodule : Json.ReadsBack (.object [("inst_desc".toList, .string ['d']),
      ("ptx".toList, .string ['p']), ("ptx_isa".toList, .string ['i'])]) := by
    refine .object ?_ (sorted_of_keys ["inst_desc", "ptx", "ptx_isa"] rfl (by decide))
    simp only [List.forall_mem_cons, List.not_mem_nil, false_imp_iff, implies_true, and_true]
    exact ⟨.string _, .string _, .string _⟩
  have hcmds : Json.ReadsBack (.array [.object [("kernel".toList, wideKernel n)]]) := by
    refine .array fun v hv => ?_
    obtain rfl := List.mem_singleton.mp hv
    exact readsBack_one hkernel
  refine .object ?_ (sorted_of_keys ["buffers", "modules", "streams"] rfl (by decide))
  simp only [List.forall_mem_cons, List.not_mem_nil, false_imp_iff, implies_true, and_true]
  refine ⟨.object ?_ (sorted_of_keys ["device", "host"] rfl (by decide)), readsBack_one hmodule,
    readsBack_one (readsBack_one hcmds)⟩
  simp only [List.forall_mem_cons, List.not_mem_nil, false_imp_iff, implies_true, and_true]
  exact ⟨hempty, hempty⟩

theorem prepare_kernelDoc {n : Nat} (hn : n < 2 ^ 53) (hsix : SixDigits n) {p : Prepared}
    (hroot : prepareRoot (fileEnv (kernelDoc n)) {} (kernelDoc n) = .ok p) :
    prepare (fileEnv (kernelDoc n)) {} [] = .ok p := by
  have hparse : parseRoot (Json.stringify (kernelDoc n)) = .ok (kernelDoc n) := by
    rw [parseRoot, (readsBack_kernelDoc hn hsix).parse_stringify]
  exact bind_ok.mpr ⟨_, rfl, bind_ok.mpr ⟨kernelDoc n, hparse, hroot⟩⟩

/-- The one command, launched over `x` CTAs. -/
def wideRun (x : BitVec 32) : Prepared where
  rt := {}
  devBufs := []
  streamIds := [1]
  queue := Function.update (fun _ => []) 1
    [{ cmdId := 1, streamId := 1, kind := .kernel
        { mod := { ptx := ['p'], ptxIsa := ['i'], instDesc := ['d'] }
          moduleName := ['m'], entry := ['k']
          launch := { gridDim := { x := x }, blockDim := { x := 32 } }, args := [] } }]

theorem numbers_exact_three :
    ∃ sid, ∃ cmd ∈ (wideRun 3).queue sid, ∃ kp, cmd.kind = .kernel kp
      ∧ (dimComponent kp.launch.gridDim 0).toNat = 3 := by
  have hprepare : prepare (fileEnv (kernelDoc 3)) {} [] = .ok (wideRun 3) :=
    prepare_kernelDoc (by decide) (sixDigits_of_lt (by decide)) rfl
  obtain ⟨-, hkernels, -⟩ := numbers_exact_iff (n := 3) (by decide)
  obtain ⟨decls, hdecls, hall⟩ := hkernels _ _ _ _ hprepare
  have hparse : parseRoot (Json.stringify (kernelDoc 3)) = .ok (kernelDoc 3) := by
    rw [parseRoot, (readsBack_kernelDoc (by decide) (sixDigits_of_lt (by decide))).parse_stringify]
  have hstreams : ∃ d, readDecls (fileEnv (kernelDoc 3)) [] = .ok d
      ∧ InStreams d.streams (.object [("kernel".toList, wideKernel 3)]) :=
    ⟨_, bind_ok.mpr ⟨_, rfl, bind_ok.mpr ⟨kernelDoc 3, hparse, rfl⟩⟩,
      _, List.mem_singleton_self _, _, _, rfl, rfl, List.mem_singleton_self _⟩
  obtain ⟨d, hd, hin⟩ := hstreams
  obtain rfl := Except.ok.inj (hd.symm.trans hdecls)
  obtain ⟨sid, cmd, hcmd, kp, hkind, hnumbers⟩ := hall _ hin
  have hgrid := hnumbers.grid (.array [natural 3, natural 1, natural 1]) 0 (natural 3) rfl rfl
    ⟨false, rfl, fun h => Bool.noConfusion h⟩
  exact ⟨sid, cmd, hcmd, kp, hkind, hgrid.mpr (by decide)⟩

/-- Ten billion CTAs become 1410065408, a warp size behind `2 ^ 32` is an ordinary one, and an
argument keeps four of its bytes. -/
theorem wide_numbers_narrowed :
    prepare (fileEnv (kernelDoc 10000000000)) {} [] = .ok (wideRun 1410065408)
      ∧ (∃ cfg, loadAppConfigRoot (fun _ => 0) (simConfig 4294967328 4294967297) = .ok cfg
        ∧ cfg.sim.warpSize = 32 ∧ cfg.sim.smCount = 1)
      ∧ writeArg [] [] [0, 0, 0, 0] { name := "a", size := 4 } ['a'] (.u32 4294967297)
        = .ok [1, 0, 0, 0] := by
  have hsix : SixDigits 10000000000 := ⟨1, 10, by norm_num, by norm_num⟩
  exact ⟨prepare_kernelDoc (by decide) hsix rfl, ⟨_, rfl, rfl, rfl⟩, rfl⟩

end ProtoGpu.Workload
