import ProtoGpu.Proof.LocalPrivacy
import ProtoGpu.Proof.MaskPartition
import ProtoGpu.Lib.Interleaving

/-!
# What a warp step accesses

The bytes of global and of local memory that a step of a warp reads and writes, lane by lane as the
loops of `MemUnit::step` come to them. A step that succeeds depends on those bytes of memory only,
and changes none but those it stores.
-/

namespace ProtoGpu

open LocalLoop CellLoop

/-! ### Bytes -/

/-- A byte of global memory, or of the map that holds all local memories. -/
inductive Cell where
  | global (a : Addr)
  | localMem (a : Addr)
deriving DecidableEq, Repr

def MemState.byte (mem : MemState) : Cell → Option Byte
  | .global a => mem.mgr.global a
  | .localMem a => mem.localMem a

/-- The same allocations and parameters over other bytes. -/
def MemState.withBytes (mem : MemState) (bytes : Cell → Option Byte) : MemState where
  mgr := { mem.mgr with global := fun a => bytes (.global a) }
  localMem := fun a => bytes (.localMem a)

@[simp]
theorem MemState.byte_withBytes (mem : MemState) (bytes : Cell → Option Byte) :
    (mem.withBytes bytes).byte = bytes := by
  funext c
  cases c <;> rfl

@[simp]
theorem MemState.withBytes_byte (mem : MemState) : mem.withBytes mem.byte = mem := rfl

@[simp]
theorem MemState.withBytes_withBytes (mem : MemState) (bytes bytes' : Cell → Option Byte) :
    (mem.withBytes bytes).withBytes bytes' = mem.withBytes bytes' := rfl

/-- Two memories that differ in bytes outside of `S` at most. -/
structure MemState.Agree (S : Set Cell) (mem mem' : MemState) : Prop where
  rest : mem' = mem.withBytes mem'.byte
  bytes : Set.EqOn mem'.byte mem.byte S

namespace MemState.Agree

variable {S T : Set Cell} {mem mem' mem'' : MemState}

theorem refl (S : Set Cell) (mem : MemState) : Agree S mem mem := ⟨rfl, fun _ _ => rfl⟩

theorem trans (h : Agree S mem mem') (h' : Agree S mem' mem'') : Agree S mem mem'' where
  rest := by
    rw [h'.rest, h.rest]
    simp
  bytes _ hc := (h'.bytes hc).trans (h.bytes hc)

theorem mono (h : Agree S mem mem') (hsub : T ⊆ S) : Agree T mem mem' :=
  ⟨h.rest, h.bytes.mono hsub⟩

theorem global (h : Agree S mem mem') {a : Addr} (ha : Cell.global a ∈ S) :
    mem'.mgr.global a = mem.mgr.global a := h.bytes ha

theorem localMem (h : Agree S mem mem') {a : Addr} (ha : Cell.localMem a ∈ S) :
    mem'.localMem a = mem.localMem a := h.bytes ha

theorem rangeAllocated (h : Agree S mem mem') (addr size : Addr) :
    mem'.mgr.globalRangeAllocated addr size = mem.mgr.globalRangeAllocated addr size := by
  rw [h.rest]
  rfl

theorem readParamSymbol (h : Agree S mem mem') (name : String) (size : Addr) :
    mem'.mgr.readParamSymbol name size = mem.mgr.readParamSymbol name size := by
  rw [h.rest]
  rfl

end MemState.Agree

/-! ### Accesses -/

/-- One access of one lane: the address its operand gives, and the bytes from `first` on. -/
structure Access where
  lane : Nat
  stores : Bool
  addr : Addr
  first : Cell
  size : Nat

/-- `c` is one of the `size` bytes from `first` on. -/
def Cell.InRange (first : Cell) (size : Nat) (c : Cell) : Prop :=
  match first, c with
  | .global start, .global a => ProtoGpu.InRange start size a
  | .localMem start, .localMem a => ProtoGpu.InRange start size a
  | _, _ => False

def Access.cells (acc : Access) : Set Cell := {c | acc.first.InRange acc.size c}

def Operand.globalAccess (o : Operand) (stores : Bool) (size lane : Nat) (w : WarpState) :
    Access where
  lane := lane
  stores := stores
  addr := evalAddrLane o w lane
  first := .global (evalAddrLane o w lane)
  size := size

def Operand.localAccess (o : Operand) (stores : Bool) (size lane : Nat) (w : WarpState) :
    Access where
  lane := lane
  stores := stores
  addr := evalAddrLane o w lane
  first := .localMem (localStart o w lane)
  size := size

/-- What the turns of a loop access, up to the first failure. -/
def turnAccesses {σ : Type} (access : Nat → σ → Access) (body : Nat → σ → Except Fault σ) :
    List Nat → σ → List Access
  | [], _ => []
  | lane :: lanes, s =>
      access lane s ::
        match body lane s with
        | .error _ => []
        | .ok s' => turnAccesses access body lanes s'

def ldAccesses (uop : MicroOp) (out src : Operand) (w : WarpState) (mem : MemState) : List Access :=
  let size := typeSize uop.attrs.type
  match uop.attrs.space with
  | .global =>
      if src.kind ≠ .addr then []
      else turnAccesses (src.globalAccess false size) (writeLane out (ldGlobalValue src size mem))
        (loopLanes (uop.execMask w)) w
  | .localMem =>
      if src.kind ≠ .addr then []
      else turnAccesses (src.localAccess false size) (writeLane out (ldLocalValue src size mem))
        (loopLanes (uop.execMask w)) w
  | _ => []

def stAccesses (uop : MicroOp) (dst val : Operand) (w : WarpState) (mem : MemState) : List Access :=
  let size := typeSize uop.attrs.type
  match uop.attrs.space with
  | .global =>
      if dst.kind ≠ .addr then []
      else turnAccesses (fun lane _ => dst.globalAccess true size lane w)
        (stGlobalLane dst val size w) (loopLanes (uop.execMask w)) mem
  | .localMem =>
      if dst.kind ≠ .addr then []
      else turnAccesses (fun lane _ => dst.localAccess true size lane w)
        (stLocalLane dst val size w) (loopLanes (uop.execMask w)) mem
  | _ => []

/-- What a step of the memory unit accesses. -/
def MicroOp.accesses (uop : MicroOp) (w : WarpState) (mem : MemState) : List Access :=
  if w.done then []
  else
    match uop.op with
    | .ld =>
        match uop.outputs, uop.inputs with
        | [out], [src] => ldAccesses uop out src w mem
        | _, _ => []
    | .st =>
        match uop.outputs, uop.inputs with
        | [], [dst, val] => stAccesses uop dst val w mem
        | _, _ => []
    | _ => []

def uopAccesses (uop : MicroOp) (s : IssueState) : List Access :=
  match uop.kind with
  | .mem => uop.accesses s.warp s.mem
  | _ => []

def uopLoopAccesses (ctx : WarpContext) (inst : InstRecord) :
    List MicroOp → IssueState → List Access
  | [], _ => []
  | uop :: uops, s =>
      uopAccesses uop s ++
        match uopStep ctx inst uop s with
        | (some _, _) => []
        | (none, s') => uopLoopAccesses ctx inst uops s'

def issueAccesses (ctx : WarpContext) (w : WarpState) (mem : MemState) : List Access :=
  if w.pc < 0 then []
  else
    match ctx.kernel.insts[w.pc.toNat]? with
    | none => []
    | some inst =>
        match ctx.registry.lookup inst with
        | none => []
        | some desc =>
            match predicate ctx inst w (expand inst desc ctx.warpSize) with
            | .error _ => []
            | .ok uops => uopLoopAccesses ctx inst uops { warp := w, mem := mem }

/-- What a step of a warp accesses. -/
def warpAccesses (ctx : WarpContext) (w : WarpState) (mem : MemState) : List Access :=
  match normalizeStack ctx w with
  | (.ok .ready, w') => issueAccesses ctx w' mem
  | _ => []

/-- The bytes that some access of the list reads or stores. -/
def touchedBy (accs : List Access) : Set Cell := {c | ∃ acc ∈ accs, c ∈ acc.cells}

def storedBy (accs : List Access) : Set Cell :=
  {c | ∃ acc ∈ accs, acc.stores = true ∧ c ∈ acc.cells}

@[simp]
theorem mem_touchedBy {accs : List Access} {c : Cell} :
    c ∈ touchedBy accs ↔ ∃ acc ∈ accs, c ∈ acc.cells := Iff.rfl

@[simp]
theorem mem_storedBy {accs : List Access} {c : Cell} :
    c ∈ storedBy accs ↔ ∃ acc ∈ accs, acc.stores = true ∧ c ∈ acc.cells := Iff.rfl

theorem storedBy_subset (accs : List Access) : storedBy accs ⊆ touchedBy accs :=
  fun _ ⟨acc, hacc, _, hc⟩ => ⟨acc, hacc, hc⟩

theorem touchedBy_cons (acc : Access) (accs : List Access) :
    touchedBy (acc :: accs) = acc.cells ∪ touchedBy accs := by
  ext c
  simp

theorem storedBy_cons {acc : Access} (hstores : acc.stores = true) (accs : List Access) :
    storedBy (acc :: accs) = acc.cells ∪ storedBy accs := by
  ext c
  simp [hstores]

theorem touchedBy_append (accs accs' : List Access) :
    touchedBy (accs ++ accs') = touchedBy accs ∪ touchedBy accs' := by
  ext c
  simp [or_and_right, exists_or]

theorem storedBy_append (accs accs' : List Access) :
    storedBy (accs ++ accs') = storedBy accs ∪ storedBy accs' := by
  ext c
  simp [or_and_right, exists_or]

/-! ### Turns -/

section Turns

variable {σ : Type} {access : Nat → σ → Access} {body body' : Nat → σ → Except Fault σ}
  {R : σ → σ → Prop} {S : Set Cell} {lanes : List Nat} {s s₂ s' : σ}

theorem turnAccesses_cons {lane : Nat} (h : body lane s = .ok s') :
    turnAccesses access body (lane :: lanes) s
      = access lane s :: turnAccesses access body lanes s' := by
  rw [turnAccesses, h]

/-- Two loops whose turns go the same way, as long as the first stays in `S`. -/
theorem forEach_sim
    (hturn : ∀ lane s s₂ s', R s s₂ → (access lane s).cells ⊆ S → body lane s = .ok s' →
      access lane s₂ = access lane s ∧ ∃ s₂', body' lane s₂ = .ok s₂' ∧ R s' s₂')
    (hR : R s s₂) (hcells : touchedBy (turnAccesses access body lanes s) ⊆ S)
    (hrun : forEach body lanes s = (none, s')) :
    ∃ s₂', forEach body' lanes s₂ = (none, s₂') ∧ R s' s₂'
      ∧ turnAccesses access body' lanes s₂ = turnAccesses access body lanes s := by
  induction lanes generalizing s s₂ with
  | nil =>
      cases hrun
      exact ⟨s₂, rfl, hR, rfl⟩
  | cons lane lanes ih =>
      obtain ⟨t, hfirst, hrest⟩ := forEach_cons_ok.mp hrun
      rw [turnAccesses_cons hfirst, touchedBy_cons, Set.union_subset_iff] at hcells
      obtain ⟨haccess, t₂, hfirst₂, hRt⟩ := hturn lane s s₂ t hR hcells.1 hfirst
      obtain ⟨s₂', hrest₂, hRs, hsame⟩ := ih hRt hcells.2 hrest
      refine ⟨s₂', forEach_cons_ok.mpr ⟨t₂, hfirst₂, hrest₂⟩, hRs, ?_⟩
      rw [turnAccesses_cons hfirst, turnAccesses_cons hfirst₂, haccess, hsame]

end Turns

section Lanes

variable {S : Set Cell} {mem mem' mem₂ : MemState} {w : WarpState} {lane : Nat}

theorem typeSize_le_two_pow (t : ValueType) : typeSize t ≤ 2 ^ 64 := by
  rcases typeSize_le t with h | h <;> rw [h] <;> decide

theorem toNat_ofNat_typeSize (t : ValueType) :
    (BitVec.ofNat 64 (typeSize t)).toNat = typeSize t := by
  rcases typeSize_le t with h | h <;> rw [h] <;> rfl

theorem ldGlobalValue_agree {src : Operand} {t : ValueType} (hagree : mem.Agree S mem₂)
    (hcells : (src.globalAccess false (typeSize t) lane w).cells ⊆ S) :
    ldGlobalValue src (typeSize t) mem₂ w lane = ldGlobalValue src (typeSize t) mem w lane := by
  have hread : readSparse mem₂.mgr.global (evalAddrLane src w lane) (typeSize t)
      = readSparse mem.mgr.global (evalAddrLane src w lane) (typeSize t) := by
    refine readSparse_congr (typeSize_le_two_pow t) fun a ha => ?_
    have hin : Cell.global a ∈ S := hcells ha
    rw [hagree.global hin]
  unfold ldGlobalValue AddrSpaceManager.readGlobal
  dsimp only
  rw [hagree.rangeAllocated, toNat_ofNat_typeSize, hread]

theorem ldLocalValue_agree {src : Operand} {t : ValueType} (hagree : mem.Agree S mem₂)
    (hcells : (src.localAccess false (typeSize t) lane w).cells ⊆ S) :
    ldLocalValue src (typeSize t) mem₂ w lane = ldLocalValue src (typeSize t) mem w lane := by
  have hread : readSparse mem₂.localMem (localStart src w lane) (typeSize t)
      = readSparse mem.localMem (localStart src w lane) (typeSize t) := by
    refine readSparse_congr (typeSize_le_two_pow t) fun a ha => ?_
    have hin : Cell.localMem a ∈ S := hcells ha
    rw [hagree.localMem hin]
  exact congrArg (fun bytes => Except.ok (unpackLe bytes)) hread

theorem stGlobalLane_agree {dst val : Operand} {size : Nat} (hsize : size ≤ 2 ^ 64)
    (hagree : mem.Agree S mem₂) (h : stGlobalLane dst val size w lane mem = .ok mem') :
    ∃ mem₂', stGlobalLane dst val size w lane mem₂ = .ok mem₂' ∧ mem'.Agree S mem₂' := by
  obtain ⟨haligned, halloc, v, hv, rfl⟩ := stGlobalLane_ok h
  refine ⟨{ mem₂ with mgr := { mem₂.mgr with
      global := writeSparse mem₂.mgr.global (evalAddrLane dst w lane) (packLe v size) } }, ?_, ?_,
        ?_⟩
  · unfold stGlobalLane AddrSpaceManager.writeGlobal
    dsimp only
    rw [haligned, if_neg Bool.false_ne_true, hv]
    dsimp only
    rw [length_packLe, hagree.rangeAllocated, halloc, if_pos rfl]
  · rw [hagree.rest]
    rfl
  · rintro (a | a) ha
    · change writeSparse _ _ _ a = writeSparse _ _ _ a
      have hlength : (packLe v size).length ≤ 2 ^ 64 := by rwa [length_packLe]
      rw [writeSparse_apply _ _ _ hlength, writeSparse_apply _ _ _ hlength, hagree.global ha]
    · exact hagree.localMem ha

theorem stLocalLane_agree {dst val : Operand} {size : Nat} (hsize : size ≤ 2 ^ 64)
    (hagree : mem.Agree S mem₂) (h : stLocalLane dst val size w lane mem = .ok mem') :
    ∃ mem₂', stLocalLane dst val size w lane mem₂ = .ok mem₂' ∧ mem'.Agree S mem₂' := by
  obtain ⟨v, hv, rfl⟩ := stLocalLane_ok.mp h
  refine ⟨_, stLocalLane_ok.mpr ⟨v, hv, rfl⟩, ?_, ?_⟩
  · rw [hagree.rest]
    rfl
  · rintro (a | a) ha
    · exact hagree.global ha
    · change writeSparse _ _ _ a = writeSparse _ _ _ a
      have hlength : (packLe v size).length ≤ 2 ^ 64 := by rwa [length_packLe]
      rw [writeSparse_apply _ _ _ hlength, writeSparse_apply _ _ _ hlength, hagree.localMem ha]

theorem stGlobalLane_keeps {dst val : Operand} {size : Nat} (hsize : size ≤ 2 ^ 64)
    (h : stGlobalLane dst val size w lane mem = .ok mem') :
    mem.Agree (dst.globalAccess true size lane w).cellsᶜ mem' := by
  obtain ⟨-, -, v, -, rfl⟩ := stGlobalLane_ok h
  refine ⟨rfl, ?_⟩
  rintro (a | a) ha
  · refine writeSparse_of_not_inRange _ _ (by rwa [length_packLe]) ?_
    rw [length_packLe]
    exact ha
  · rfl

theorem stLocalLane_keeps {dst val : Operand} {size : Nat} (hsize : size ≤ 2 ^ 64)
    (h : stLocalLane dst val size w lane mem = .ok mem') :
    mem.Agree (dst.localAccess true size lane w).cellsᶜ mem' := by
  obtain ⟨v, -, rfl⟩ := stLocalLane_ok.mp h
  refine ⟨rfl, ?_⟩
  rintro (a | a) ha
  · rfl
  · refine writeSparse_of_not_inRange _ _ (by rwa [length_packLe]) ?_
    rw [length_packLe]
    exact ha

/-- The stores of a loop change only what they store. -/
theorem forEach_keeps {access : Nat → MemState → Access}
    {body : Nat → MemState → Except Fault MemState} {lanes : List Nat}
    (hturn : ∀ lane s s', body lane s = .ok s' →
      (access lane s).stores = true ∧ s.Agree (access lane s).cellsᶜ s')
    (hrun : forEach body lanes mem = (none, mem')) :
    mem.Agree (storedBy (turnAccesses access body lanes mem))ᶜ mem' := by
  induction lanes generalizing mem with
  | nil =>
      cases hrun
      exact .refl _ _
  | cons lane lanes ih =>
      obtain ⟨t, hfirst, hrest⟩ := forEach_cons_ok.mp hrun
      obtain ⟨hstores, hkeeps⟩ := hturn lane mem t hfirst
      rw [turnAccesses_cons hfirst, storedBy_cons hstores, Set.compl_union]
      exact (hkeeps.mono Set.inter_subset_left).trans ((ih hrest).mono Set.inter_subset_right)

end Lanes

/-! ### Micro-ops -/

section Uops

variable {S : Set Cell} {mem mem' mem₂ : MemState} {w w' : WarpState} {sr : StepResult}
  {uop : MicroOp}

theorem stepOfLoop_eq_ok {σ : Type} {r : Option Fault × σ} {s : σ}
    (h : stepOfLoop r = (.ok sr, s)) : r = (none, s) ∧ sr = { progressed := true } := by
  obtain ⟨f, t⟩ := r
  cases f with
  | some f => cases h
  | none =>
      obtain ⟨hsr, rfl⟩ := Prod.mk.inj h
      exact ⟨rfl, (Except.ok.inj hsr).symm⟩

theorem stepOfLoop_none {σ : Type} (s : σ) :
    stepOfLoop (none, s) = (.ok { progressed := true }, s) := rfl

theorem laneLoop_loopLanes {σ : Type} (mask : LaneMask) (body : Nat → σ → Except Fault σ) (s : σ) :
    laneLoop mask body s = forEach body (loopLanes mask) s := laneLoop_eq_forEach mask body s

theorem ldLoop_agree {access : Nat → WarpState → Access} {out : Operand}
    {value value₂ : WarpState → Nat → Except Fault (BitVec 64)} {mask : LaneMask}
    (hvalue : ∀ lane s, (access lane s).cells ⊆ S → value₂ s lane = value s lane)
    (hcells : touchedBy (turnAccesses access (writeLane out value) (loopLanes mask) w) ⊆ S)
    (h : stepOfLoop (laneLoop mask (writeLane out value) w) = (.ok sr, w')) :
    stepOfLoop (laneLoop mask (writeLane out value₂) w) = (.ok sr, w')
      ∧ turnAccesses access (writeLane out value₂) (loopLanes mask) w
        = turnAccesses access (writeLane out value) (loopLanes mask) w := by
  obtain ⟨hloop, rfl⟩ := stepOfLoop_eq_ok h
  rw [laneLoop_loopLanes] at hloop ⊢
  have hturn : ∀ lane s s₂ s', s = s₂ → (access lane s).cells ⊆ S →
      writeLane out value lane s = .ok s' →
        access lane s₂ = access lane s ∧ ∃ s₂', writeLane out value₂ lane s₂ = .ok s₂' ∧
          s' = s₂' := by
    rintro lane s _ s' rfl hin hbody
    refine ⟨rfl, s', ?_, rfl⟩
    rw [← hbody, writeLane, writeLane, hvalue lane s hin]
  obtain ⟨w₂, hloop₂, rfl, hsame⟩ := forEach_sim (R := Eq) hturn rfl hcells hloop
  exact ⟨by rw [hloop₂, stepOfLoop_none], hsame⟩

theorem ldStep_agree {out src : Operand} (hagree : mem.Agree S mem₂)
    (hcells : touchedBy (ldAccesses uop out src w mem) ⊆ S)
    (h : ldStep uop (uop.execMask w) out src w mem = (.ok sr, w')) :
    ldStep uop (uop.execMask w) out src w mem₂ = (.ok sr, w')
      ∧ ldAccesses uop out src w mem₂ = ldAccesses uop out src w mem := by
  unfold ldStep ldAccesses at *
  cases hspace : uop.attrs.space with
  | param =>
      simp only [hspace] at h ⊢
      rw [hagree.readParamSymbol]
      exact ⟨h, trivial⟩
  | global =>
      simp only [hspace] at h hcells ⊢
      split at h
      · cases h
      next hkind =>
        rw [if_neg hkind] at hcells ⊢
        rw [if_neg hkind, if_neg hkind]
        exact ldLoop_agree (fun lane s hin => ldGlobalValue_agree hagree hin) hcells h
  | localMem =>
      simp only [hspace] at h hcells ⊢
      split at h
      · cases h
      next hkind =>
        rw [if_neg hkind] at hcells ⊢
        rw [if_neg hkind, if_neg hkind]
        exact ldLoop_agree (fun lane s hin => ldLocalValue_agree hagree hin) hcells h
  | shared =>
      simp only [hspace] at h
      cases h
  | const =>
      simp only [hspace] at h
      cases h

theorem stLoop_agree {access : Nat → MemState → Access} {mask : LaneMask}
    {body : Nat → MemState → Except Fault MemState}
    (haccess : ∀ lane s s₂, access lane s₂ = access lane s)
    (hbody : ∀ lane s s₂ s', s.Agree S s₂ → body lane s = .ok s' →
      ∃ s₂', body lane s₂ = .ok s₂' ∧ s'.Agree S s₂')
    (hkeeps : ∀ lane s s', body lane s = .ok s' →
      (access lane s).stores = true ∧ s.Agree (access lane s).cellsᶜ s')
    (hagree : mem.Agree S mem₂)
    (hcells : touchedBy (turnAccesses access body (loopLanes mask) mem) ⊆ S)
    (h : stepOfLoop (laneLoop mask body mem) = (.ok sr, mem')) :
    ∃ mem₂', stepOfLoop (laneLoop mask body mem₂) = (.ok sr, mem₂') ∧ mem'.Agree S mem₂'
      ∧ turnAccesses access body (loopLanes mask) mem₂
        = turnAccesses access body (loopLanes mask) mem
      ∧ mem.Agree (storedBy (turnAccesses access body (loopLanes mask) mem))ᶜ mem' := by
  obtain ⟨hloop, rfl⟩ := stepOfLoop_eq_ok h
  rw [laneLoop_loopLanes] at hloop ⊢
  have hturn : ∀ lane s s₂ s', MemState.Agree S s s₂ → (access lane s).cells ⊆ S →
      body lane s = .ok s' →
        access lane s₂ = access lane s ∧ ∃ s₂', body lane s₂ = .ok s₂' ∧ MemState.Agree S s' s₂' :=
    fun lane s s₂ s' hR _ hs => ⟨haccess lane s s₂, hbody lane s s₂ s' hR hs⟩
  obtain ⟨mem₂', hloop₂, hagree', hsame⟩ :=
    forEach_sim (R := MemState.Agree S) hturn hagree hcells hloop
  rw [hloop₂, stepOfLoop_none]
  exact ⟨mem₂', rfl, hagree', hsame, forEach_keeps hkeeps hloop⟩

theorem stStep_agree {dst val : Operand} (hagree : mem.Agree S mem₂)
    (hcells : touchedBy (stAccesses uop dst val w mem) ⊆ S)
    (h : stStep uop (uop.execMask w) dst val w mem = (.ok sr, mem')) :
    ∃ mem₂', stStep uop (uop.execMask w) dst val w mem₂ = (.ok sr, mem₂') ∧ mem'.Agree S mem₂'
      ∧ stAccesses uop dst val w mem₂ = stAccesses uop dst val w mem
      ∧ mem.Agree (storedBy (stAccesses uop dst val w mem))ᶜ mem' := by
  have hsize := typeSize_le_two_pow uop.attrs.type
  unfold stStep stAccesses at *
  cases hspace : uop.attrs.space with
  | global =>
      simp only [hspace] at h hcells ⊢
      split at h
      · cases h
      next hkind =>
        rw [if_neg hkind] at hcells ⊢
        rw [if_neg hkind, if_neg hkind]
        exact stLoop_agree (fun _ _ _ => rfl) (fun _ _ _ _ => stGlobalLane_agree hsize)
          (fun _ _ _ hs => ⟨rfl, stGlobalLane_keeps hsize hs⟩) hagree hcells h
  | localMem =>
      simp only [hspace] at h hcells ⊢
      split at h
      · cases h
      next hkind =>
        rw [if_neg hkind] at hcells ⊢
        rw [if_neg hkind, if_neg hkind]
        exact stLoop_agree (fun _ _ _ => rfl) (fun _ _ _ _ => stLocalLane_agree hsize)
          (fun _ _ _ hs => ⟨rfl, stLocalLane_keeps hsize hs⟩) hagree hcells h
  | param =>
      simp only [hspace] at h
      cases h
  | shared =>
      simp only [hspace] at h
      cases h
  | const =>
      simp only [hspace] at h
      cases h

/-- A load of a live warp, or a refusal whatever the memory. -/
theorem memStep_ld (hop : uop.op = .ld) (hdone : w.done = false) :
    (∃ out src, ∀ mem,
      MemUnit.step uop w mem
          = ((ldStep uop (uop.execMask w) out src w mem).1,
            (ldStep uop (uop.execMask w) out src w mem).2, mem)
        ∧ uop.accesses w mem = ldAccesses uop out src w mem)
    ∨ ∃ f, ∀ mem, MemUnit.step uop w mem = (.error f, w, mem) := by
  simp only [MemUnit.step, MicroOp.accesses, hdone, hop, Bool.false_eq_true, if_false]
  rcases uop.outputs with _ | ⟨out, _ | ⟨_, _⟩⟩
  · exact .inr ⟨_, fun _ => rfl⟩
  · rcases uop.inputs with _ | ⟨src, _ | ⟨_, _⟩⟩
    · exact .inr ⟨_, fun _ => rfl⟩
    · exact .inl ⟨out, src, fun _ => ⟨rfl, rfl⟩⟩
    · exact .inr ⟨_, fun _ => rfl⟩
  · exact .inr ⟨_, fun _ => rfl⟩

theorem memStep_st (hop : uop.op = .st) (hdone : w.done = false) :
    (∃ dst val, ∀ mem,
      MemUnit.step uop w mem
          = ((stStep uop (uop.execMask w) dst val w mem).1, w,
            (stStep uop (uop.execMask w) dst val w mem).2)
        ∧ uop.accesses w mem = stAccesses uop dst val w mem)
    ∨ ∃ f, ∀ mem, MemUnit.step uop w mem = (.error f, w, mem) := by
  simp only [MemUnit.step, MicroOp.accesses, hdone, hop, Bool.false_eq_true, if_false]
  rcases uop.outputs with _ | ⟨_, _⟩
  · rcases uop.inputs with _ | ⟨dst, _ | ⟨val, _ | ⟨_, _⟩⟩⟩
    · exact .inr ⟨_, fun _ => rfl⟩
    · exact .inr ⟨_, fun _ => rfl⟩
    · exact .inl ⟨dst, val, fun _ => ⟨rfl, rfl⟩⟩
    · exact .inr ⟨_, fun _ => rfl⟩
  · exact .inr ⟨_, fun _ => rfl⟩

/-- A step of the memory unit. -/
theorem memStep_agree (hagree : mem.Agree S mem₂) (hcells : touchedBy (uop.accesses w mem) ⊆ S)
    (h : MemUnit.step uop w mem = (.ok sr, w', mem')) :
    ∃ mem₂', MemUnit.step uop w mem₂ = (.ok sr, w', mem₂') ∧ mem'.Agree S mem₂'
      ∧ uop.accesses w mem₂ = uop.accesses w mem
      ∧ mem.Agree (storedBy (uop.accesses w mem))ᶜ mem' := by
  cases hdone : w.done with
  | true =>
      have hquiet : ∀ mem, MemUnit.step uop w mem = (.ok { warpDone := true }, w, mem)
          ∧ uop.accesses w mem = [] :=
        fun mem => ⟨by rw [MemUnit.step, if_pos hdone], by rw [MicroOp.accesses, if_pos hdone]⟩
      rw [(hquiet mem).1] at h
      cases h
      refine ⟨mem₂, (hquiet mem₂).1, hagree, ?_, .refl _ _⟩
      rw [(hquiet mem₂).2, (hquiet mem).2]
  | false =>
      cases hop : uop.op with
      | ld =>
          rcases memStep_ld hop hdone with ⟨out, src, hld⟩ | ⟨f, hrefused⟩
          · obtain ⟨hstep, haccesses⟩ := hld mem
            rw [hstep] at h
            rw [haccesses] at hcells ⊢
            obtain ⟨hsr, hrest⟩ := Prod.mk.inj h
            obtain ⟨hw, rfl⟩ := Prod.mk.inj hrest
            obtain ⟨hok₂, hsame⟩ := ldStep_agree hagree hcells (Prod.ext hsr hw)
            refine ⟨mem₂, ?_, hagree, by rw [(hld mem₂).2, hsame], .refl _ _⟩
            rw [(hld mem₂).1, hok₂]
          · rw [hrefused] at h
            cases h
      | st =>
          rcases memStep_st hop hdone with ⟨dst, val, hst⟩ | ⟨f, hrefused⟩
          · obtain ⟨hstep, haccesses⟩ := hst mem
            rw [hstep] at h
            rw [haccesses] at hcells ⊢
            obtain ⟨hsr, hrest⟩ := Prod.mk.inj h
            obtain ⟨rfl, hmem⟩ := Prod.mk.inj hrest
            obtain ⟨mem₂', hok₂, hagree', hsame, hkeeps⟩ :=
              stStep_agree hagree hcells (Prod.ext hsr hmem)
            refine ⟨mem₂', ?_, hagree', by rw [(hst mem₂).2, hsame], hkeeps⟩
            rw [(hst mem₂).1, hok₂]
          · rw [hrefused] at h
            cases h
      | _ =>
          rw [MemUnit.step, hdone, if_neg Bool.false_ne_true, hop] at h
          cases h

end Uops

/-! ### Steps -/

section Steps

variable {S : Set Cell} {ctx : WarpContext} {inst : InstRecord} {uop : MicroOp} {mem₂ : MemState}

def IssueState.withMem (s : IssueState) (mem : MemState) : IssueState := { s with mem := mem }

theorem ctrlRet_withMem (uop : MicroOp) (s : IssueState) (mem : MemState) :
    ctrlRet uop (s.withMem mem) = (ctrlRet uop s).withMem mem := by
  unfold ctrlRet IssueState.withMem
  dsimp only
  split
  · rfl
  · split <;> rfl

theorem detectSplit_withMem (ctx : WarpContext) (inst : InstRecord) (uop : MicroOp) (target : Int)
    (s : IssueState) (mem : MemState) :
    detectSplit ctx inst uop target (s.withMem mem)
      = (detectSplit ctx inst uop target s).map (·.withMem mem) := by
  unfold detectSplit IssueState.withMem
  dsimp only
  split
  · rfl
  · split
    · rfl
    · split <;> rfl

theorem setNextPc_withMem (ctx : WarpContext) (inst : InstRecord) (target : Int) (s : IssueState)
    (mem : MemState) :
    setNextPc ctx inst target (s.withMem mem)
      = (setNextPc ctx inst target s).map (·.withMem mem) := by
  unfold setNextPc IssueState.withMem
  dsimp only
  split
  · rfl
  · split <;> rfl

theorem ctrlStep_withMem (ctx : WarpContext) (inst : InstRecord) (uop : MicroOp) (s : IssueState)
    (mem : MemState) :
    ctrlStep ctx inst uop (s.withMem mem)
      = ((ctrlStep ctx inst uop s).1, (ctrlStep ctx inst uop s).2.withMem mem) := by
  have hwarp : ∀ warp, { s.withMem mem with warp := warp } = { s with warp := warp }.withMem mem :=
    fun _ => rfl
  have hsame : (s.withMem mem).warp = s.warp := rfl
  unfold ctrlStep
  simp only [hwarp, hsame]
  rcases ControlUnit.step uop s.warp with ⟨_ | sr, warp⟩
  · rfl
  · dsimp only
    cases sr.nextPc with
    | none => rfl
    | some target =>
        dsimp only
        have hdetected : (if uop.op = .bra then
              detectSplit ctx inst uop target ({ s with warp := warp }.withMem mem)
            else .ok ({ s with warp := warp }.withMem mem))
            = (if uop.op = .bra then detectSplit ctx inst uop target { s with warp := warp }
              else .ok { s with warp := warp }).map (·.withMem mem) := by
          split
          · exact detectSplit_withMem ..
          · rfl
        rw [hdetected]
        rcases (if uop.op = .bra then detectSplit ctx inst uop target { s with warp := warp }
          else .ok { s with warp := warp }) with f | s₁
        · rfl
        · simp only [Except.map, setNextPc_withMem]
          rcases setNextPc ctx inst target s₁ with f | s₂ <;> rfl

/-- A micro-op that succeeds goes the same way over a memory that agrees in what it touches. -/
theorem uopStep_agree {s s' : IssueState} (hagree : s.mem.Agree S mem₂)
    (hcells : touchedBy (uopAccesses uop s) ⊆ S) (h : uopStep ctx inst uop s = (none, s')) :
    ∃ mem₂', uopStep ctx inst uop (s.withMem mem₂) = (none, s'.withMem mem₂') ∧ s'.mem.Agree S mem₂'
      ∧ uopAccesses uop (s.withMem mem₂) = uopAccesses uop s
      ∧ s.mem.Agree (storedBy (uopAccesses uop s))ᶜ s'.mem := by
  unfold uopStep uopAccesses at *
  cases hkind : uop.kind with
  | exec =>
      simp only [hkind] at h ⊢
      have hsame : (s.withMem mem₂).warp = s.warp := rfl
      rw [hsame]
      obtain ⟨r, hexec⟩ : ∃ r, ExecCore.step ctx.floatOps uop s.warp = r := ⟨_, rfl⟩
      rw [hexec] at h ⊢
      obtain ⟨f | sr, warp⟩ := r
      · cases h
      · cases h
        exact ⟨mem₂, rfl, hagree, trivial, .refl _ _⟩
  | control =>
      simp only [hkind] at h ⊢
      split at h
      next hret =>
        cases h
        rw [if_pos hret, ctrlRet_withMem, (ctrlRet_keeps uop s).2]
        exact ⟨mem₂, rfl, hagree, trivial, .refl _ _⟩
      next hbra =>
        have hmem := (ctrlStep_keeps ctx inst uop s).2
        rw [if_neg hbra, ctrlStep_withMem]
        rw [h] at hmem ⊢
        dsimp only at hmem ⊢
        rw [hmem]
        exact ⟨mem₂, rfl, hagree, trivial, .refl _ _⟩
  | mem =>
      simp only [hkind] at h hcells ⊢
      split at h
      · cases h
      next sr warp mem' hstep =>
        obtain ⟨mem₂', hstep₂, hagree', hsame, hkeeps⟩ := memStep_agree hagree hcells hstep
        cases h
        have hstep₂' : MemUnit.step uop (s.withMem mem₂).warp (s.withMem mem₂).mem = _ := hstep₂
        rw [hstep₂']
        exact ⟨mem₂', rfl, hagree', hsame, hkeeps⟩

theorem uopLoopAccesses_cons {uops : List MicroOp} {s s' : IssueState}
    (h : uopStep ctx inst uop s = (none, s')) :
    uopLoopAccesses ctx inst (uop :: uops) s
      = uopAccesses uop s ++ uopLoopAccesses ctx inst uops s' := by
  rw [uopLoopAccesses, h]

theorem uopLoop_agree {uops : List MicroOp} {s s' : IssueState} (hagree : s.mem.Agree S mem₂)
    (hcells : touchedBy (uopLoopAccesses ctx inst uops s) ⊆ S)
    (h : uopLoop ctx inst uops s = (none, s')) :
    ∃ mem₂', uopLoop ctx inst uops (s.withMem mem₂) = (none, s'.withMem mem₂')
      ∧ s'.mem.Agree S mem₂'
      ∧ uopLoopAccesses ctx inst uops (s.withMem mem₂) = uopLoopAccesses ctx inst uops s
      ∧ s.mem.Agree (storedBy (uopLoopAccesses ctx inst uops s))ᶜ s'.mem := by
  induction uops generalizing s mem₂ with
  | nil =>
      cases h
      exact ⟨mem₂, rfl, hagree, rfl, .refl _ _⟩
  | cons uop uops ih =>
      rw [uopLoop] at h
      split at h
      · cases h
      next s₁ hfirst =>
        rw [uopLoopAccesses_cons hfirst] at hcells ⊢
        rw [touchedBy_append, Set.union_subset_iff] at hcells
        obtain ⟨mem₁, hfirst₂, hagree₁, hsame₁, hkeeps₁⟩ := uopStep_agree hagree hcells.1 hfirst
        obtain ⟨mem₂', hrest₂, hagree₂, hsame₂, hkeeps₂⟩ := ih hagree₁ hcells.2 h
        refine ⟨mem₂', ?_, hagree₂, ?_, ?_⟩
        · rw [uopLoop, hfirst₂]
          exact hrest₂
        · rw [uopLoopAccesses_cons hfirst₂, hsame₁, hsame₂]
        · rw [storedBy_append, Set.compl_union]
          exact (hkeeps₁.mono Set.inter_subset_left).trans (hkeeps₂.mono Set.inter_subset_right)

theorem issueInst_agree {w w' : WarpState} {mem mem' : MemState} {issue : Issue}
    (hagree : mem.Agree S mem₂) (hcells : touchedBy (issueAccesses ctx w mem) ⊆ S)
    (h : issueInst ctx w mem = (.ok issue, w', mem')) :
    ∃ mem₂', issueInst ctx w mem₂ = (.ok issue, w', mem₂') ∧ mem'.Agree S mem₂'
      ∧ issueAccesses ctx w mem₂ = issueAccesses ctx w mem
      ∧ mem.Agree (storedBy (issueAccesses ctx w mem))ᶜ mem' := by
  unfold issueInst issueAccesses at *
  by_cases hpc : w.pc < 0
  · rw [if_pos hpc] at h
    cases h
  simp only [if_neg hpc] at h hcells ⊢
  cases hinst : ctx.kernel.insts[w.pc.toNat]? with
  | none =>
      rw [hinst] at h
      cases h
  | some inst =>
      simp only [hinst] at h hcells ⊢
      cases hdesc : ctx.registry.lookup inst with
      | none =>
          rw [hdesc] at h
          cases h
      | some desc =>
          simp only [hdesc] at h hcells ⊢
          cases hpredicate : predicate ctx inst w (expand inst desc ctx.warpSize) with
          | error f =>
              rw [hpredicate] at h
              cases h
          | ok uops =>
              simp only [hpredicate] at h hcells ⊢
              split at h
              · cases h
              next s hloop =>
                obtain ⟨mem₂', hloop₂, hagree', hsame, hkeeps⟩ :=
                  uopLoop_agree (s := { warp := w, mem := mem }) hagree hcells hloop
                cases h
                have hloop₂' : uopLoop ctx inst uops { warp := w, mem := mem₂ } = _ := hloop₂
                rw [hloop₂']
                exact ⟨mem₂', rfl, hagree', hsame, hkeeps⟩

/-- **Locality.** A step that succeeds goes the same way over a memory that agrees with the first in
the bytes it touches, and changes none but those it stores. -/
theorem warpStep_agree {w w' : WarpState} {mem mem' : MemState} {outcome : StepOutcome}
    (hagree : mem.Agree S mem₂) (hcells : touchedBy (warpAccesses ctx w mem) ⊆ S)
    (h : warpStep ctx w mem = (.ok outcome, w', mem')) :
    ∃ mem₂', warpStep ctx w mem₂ = (.ok outcome, w', mem₂') ∧ mem'.Agree S mem₂'
      ∧ warpAccesses ctx w mem₂ = warpAccesses ctx w mem
      ∧ mem.Agree (storedBy (warpAccesses ctx w mem))ᶜ mem' := by
  unfold warpStep warpAccesses at *
  split at h
  · cases h
  next w₁ hnormalize =>
    cases h
    simp only [hnormalize]
    exact ⟨mem₂, rfl, hagree, trivial, .refl _ _⟩
  next w₁ hnormalize =>
    simp only [hnormalize] at hcells ⊢
    split at h
    · cases h
    next issue r hissue =>
      cases h
      obtain ⟨mem₂', hissue₂, hagree', hsame, hkeeps⟩ := issueInst_agree hagree hcells hissue
      rw [hissue₂]
      exact ⟨mem₂', rfl, hagree', hsame, hkeeps⟩

end Steps

/-! ### The lanes that access -/

/-- An access of a lane that is active in `w`, in local memory at the lane's own addresses. -/
structure Access.Of (w : WarpState) (acc : Access) : Prop where
  lane : w.active.has acc.lane = true
  start : ∀ a, acc.first = .localMem a → a = localEffectiveAddr w acc.lane acc.addr

theorem Access.Of.of_shrinks {w w' : WarpState} {acc : Access} (h : acc.Of w')
    (hactive : ∀ lane, w'.active.has lane = true → w.active.has lane = true)
    (hsame : w'.SameThreads w) : acc.Of w where
  lane := hactive _ h.lane
  start a ha := by
    rw [h.start a ha, localEffectiveAddr, localEffectiveAddr, hsame.threadLinearGlobal_eq]

section Lanes

variable {ctx : WarpContext} {inst : InstRecord} {uop : MicroOp} {w : WarpState} {mem : MemState}
  {acc : Access}

theorem mem_turnAccesses {σ : Type} {access : Nat → σ → Access} {body : Nat → σ → Except Fault σ}
    {P : σ → Prop} (hbody : ∀ lane s s', body lane s = .ok s' → P s → P s')
    {lanes : List Nat} {s : σ} (hs : P s) (hacc : acc ∈ turnAccesses access body lanes s) :
    ∃ lane ∈ lanes, ∃ t, P t ∧ acc = access lane t := by
  induction lanes generalizing s with
  | nil => cases hacc
  | cons lane lanes ih =>
      rw [turnAccesses, List.mem_cons] at hacc
      rcases hacc with rfl | hacc
      · exact ⟨lane, List.mem_cons_self, s, hs, rfl⟩
      · cases hturn : body lane s with
        | error f =>
            rw [hturn] at hacc
            cases hacc
        | ok t =>
            rw [hturn] at hacc
            obtain ⟨l, hl, u, hu, heq⟩ := ih (hbody lane s t hturn hs) hacc
            exact ⟨l, List.mem_cons_of_mem _ hl, u, hu, heq⟩

theorem has_of_mem_loopLanes {lane : Nat} (h : lane ∈ loopLanes (uop.execMask w)) :
    w.active.has lane = true := by
  have htest := mem_loopLanes_iff.mp h
  rw [laneMaskTest_eq, Bool.and_eq_true, MicroOp.execMask, has_laneMaskAnd, Bool.and_eq_true]
    at htest
  exact htest.2.1

theorem globalAccess_of {o : Operand} {stores : Bool} {size lane : Nat} (t : WarpState)
    (hlane : w.active.has lane = true) : (o.globalAccess stores size lane t).Of w :=
  ⟨hlane, fun _ ha => by cases ha⟩

theorem localAccess_of {o : Operand} {stores : Bool} {size lane : Nat} {t : WarpState}
    (hlane : w.active.has lane = true) (hsame : t.SameThreads w) :
    (o.localAccess stores size lane t).Of w where
  lane := hlane
  start a ha := by
    obtain rfl := Cell.localMem.inj ha
    exact congrArg (· * 4096 + evalAddrLane o t lane) (hsame.threadLinearGlobal_eq lane)

theorem ldAccesses_of {out src : Operand} (hacc : acc ∈ ldAccesses uop out src w mem) :
    acc.Of w := by
  have hregs : ∀ value lane s s', writeLane out value lane s = .ok s' → OnlyRegs w s →
      OnlyRegs w s' :=
    fun _ _ _ _ h hs => hs.trans (writeLane_onlyRegs h)
  unfold ldAccesses at hacc
  dsimp only at hacc
  split at hacc
  · split at hacc
    · cases hacc
    · obtain ⟨lane, hlane, t, -, rfl⟩ := mem_turnAccesses (hregs _) (OnlyRegs.refl w) hacc
      exact globalAccess_of t (has_of_mem_loopLanes hlane)
  · split at hacc
    · cases hacc
    · obtain ⟨lane, hlane, t, ht, rfl⟩ := mem_turnAccesses (hregs _) (OnlyRegs.refl w) hacc
      exact localAccess_of (has_of_mem_loopLanes hlane) ht.sameThreads
  · cases hacc

theorem stAccesses_of {dst val : Operand} (hacc : acc ∈ stAccesses uop dst val w mem) :
    acc.Of w := by
  unfold stAccesses at hacc
  dsimp only at hacc
  split at hacc
  · split at hacc
    · cases hacc
    · obtain ⟨lane, hlane, -, -, rfl⟩ :=
        mem_turnAccesses (P := fun _ => True) (fun _ _ _ _ _ => trivial) trivial hacc
      exact globalAccess_of w (has_of_mem_loopLanes hlane)
  · split at hacc
    · cases hacc
    · obtain ⟨lane, hlane, -, -, rfl⟩ :=
        mem_turnAccesses (P := fun _ => True) (fun _ _ _ _ _ => trivial) trivial hacc
      exact localAccess_of (has_of_mem_loopLanes hlane) (.refl w)
  · cases hacc

theorem accesses_of (hacc : acc ∈ uop.accesses w mem) : acc.Of w := by
  unfold MicroOp.accesses at hacc
  split at hacc
  · cases hacc
  · split at hacc
    · split at hacc
      · exact ldAccesses_of hacc
      · cases hacc
    · split at hacc
      · exact stAccesses_of hacc
      · cases hacc
    · cases hacc

theorem uopStep_sameThreads (ctx : WarpContext) (inst : InstRecord) (uop : MicroOp)
    (s : IssueState) : (uopStep ctx inst uop s).2.warp.SameThreads s.warp := by
  unfold uopStep
  split
  · have hregs := (execStep_onlyRegs ctx.floatOps uop s.warp).sameThreads
    split
    next heq =>
      rw [heq] at hregs
      exact hregs
    next heq =>
      rw [heq] at hregs
      exact hregs
  · split
    · exact (ctrlRet_keeps uop s).1
    · exact (ctrlStep_keeps ctx inst uop s).1
  · have hregs := (memStep_onlyRegs uop s.warp s.mem).sameThreads
    split
    next heq =>
      rw [heq] at hregs
      exact hregs
    next heq =>
      rw [heq] at hregs
      exact hregs

theorem uopLoop_sameThreads (ctx : WarpContext) (inst : InstRecord) (uops : List MicroOp)
    (s : IssueState) : (uopLoop ctx inst uops s).2.warp.SameThreads s.warp := by
  induction uops generalizing s with
  | nil => exact .refl _
  | cons uop uops ih =>
      have hstep := uopStep_sameThreads ctx inst uop s
      rw [uopLoop]
      split
      next heq =>
        rw [heq] at hstep
        exact hstep
      next s' heq =>
        rw [heq] at hstep
        exact (ih s').trans hstep

theorem warpStep_sameThreads (ctx : WarpContext) (w : WarpState) (mem : MemState) :
    (warpStep ctx w mem).2.1.SameThreads w := by
  have hissue : ∀ w, (issueInst ctx w mem).2.1.SameThreads w := by
    intro w
    unfold issueInst
    split
    · exact .refl _
    · split
      · exact .refl _
      next inst _ =>
        split
        · exact .refl _
        · split
          · exact .refl _
          next uops _ =>
            have hloop := uopLoop_sameThreads ctx inst uops { warp := w, mem := mem }
            split
            next heq =>
              rw [heq] at hloop
              exact hloop
            next heq =>
              rw [heq] at hloop
              exact (commit_sameThreads _ _ _ _).trans hloop
  have hnormalize := normalizeStack_sameThreads ctx w
  unfold warpStep
  split
  next heq =>
    rw [heq] at hnormalize
    exact hnormalize
  next heq =>
    rw [heq] at hnormalize
    exact hnormalize
  next w₁ heq =>
    rw [heq] at hnormalize
    have hissued := (hissue w₁).trans hnormalize
    split
    next hok =>
      rw [hok] at hissued
      exact hissued
    next hok =>
      rw [hok] at hissued
      exact hissued

theorem WarpRun.sameThreads {w₀ : WarpState} {trace : List Issue} (h : WarpRun ctx w₀ trace w) :
    w.SameThreads w₀ := by
  have hstep : ∀ {w w' : WarpState} {mem mem' : MemState} {outcome : StepOutcome},
      warpStep ctx w mem = (.ok outcome, w', mem') → w'.SameThreads w := by
    intro w w' mem mem' outcome heq
    have hsame := warpStep_sameThreads ctx w mem
    rwa [heq] at hsame
  induction h with
  | start => exact .refl _
  | issue hrun hdone hpre heq ih => exact (hstep heq).trans ih
  | retire hrun hdone hpre heq ih => exact (hstep heq).trans ih

variable {initial : LaneMask} {lanes : Finset Nat} {reconvPc : Int} {rest : List SimtFrame}

theorem uopLoopAccesses_of (hws : ctx.warpSize ≤ 32) {uops : List MicroOp} {s : IssueState}
    (hguard : ∀ uop ∈ uops, uop.guard.Fits ctx.warpSize)
    (h : IssueInv ctx initial lanes reconvPc rest s)
    (hacc : acc ∈ uopLoopAccesses ctx inst uops s) : acc.Of s.warp := by
  induction uops generalizing s with
  | nil => cases hacc
  | cons uop uops ih =>
      rw [uopLoopAccesses, List.mem_append] at hacc
      rcases hacc with hacc | hacc
      · unfold uopAccesses at hacc
        split at hacc
        · exact accesses_of hacc
        · cases hacc
      · split at hacc
        · cases hacc
        next s₁ hstep =>
          have h₁ := (h.uop hws (hguard uop (by simp)) hstep).2 rfl
          have hlater := ih (fun u hu => hguard u (by simp [hu])) h₁ hacc
          have hsame := uopStep_sameThreads ctx inst uop s
          rw [hstep] at hsame
          exact hlater.of_shrinks (uopStep_shrinks h.run hstep).active hsame

/-- Only lanes the warp began with access memory. -/
theorem warpAccesses_of (hws : ctx.warpSize ≤ 32) (hinv : WarpInv ctx initial w)
    (hdone : w.done = false) (hacc : acc ∈ warpAccesses ctx w mem) :
    initial.has acc.lane = true
      ∧ ∀ a, acc.first = .localMem a → a = localEffectiveAddr w acc.lane acc.addr := by
  unfold warpAccesses at hacc
  split at hacc
  next w₁ hnormalize =>
    obtain ⟨lanes, reconvPc, rest, hrun⟩ := normalizeStack_ready hws hdone hinv hnormalize
    have hof : acc.Of w₁ := by
      unfold issueAccesses at hacc
      split at hacc
      · cases hacc
      · split at hacc
        · cases hacc
        · split at hacc
          · cases hacc
          · split at hacc
            · cases hacc
            next uops hpredicate =>
              obtain ⟨guard, hguard, rfl⟩ := predicate_ok hws hpredicate
              refine uopLoopAccesses_of (s := { warp := w₁, mem := mem }) hws (fun u hu => ?_)
                ⟨hrun, by simp⟩ hacc
              rw [guard_of_mem_guardedUops hu]
              exact hguard.fits
    have hsame : w₁.SameThreads w := by
      have h := normalizeStack_sameThreads ctx w
      rwa [hnormalize] at h
    refine ⟨?_, fun a ha => ?_⟩
    · have hlive := hrun.live _ hof.lane
      have hcount := hrun.partition acc.lane
      rw [hrun.stack, holders_cons, SimtFrame.holds, hof.lane, hlive] at hcount
      cases hinitial : initial.has acc.lane with
      | true => rfl
      | false =>
          rw [hinitial] at hcount
          simp at hcount
    · rw [hof.start a ha, localEffectiveAddr, localEffectiveAddr, hsame.threadLinearGlobal_eq]
  · cases hacc

end Lanes

/-! ### The warp as a thread -/

section Machine

variable {ctx : WarpContext} {base : MemState} {w w' : WarpState}
  {bytes bytes' : Cell → Option Byte}
  {outcome : StepOutcome}

/-- A warp over the bytes of memory; the allocations and parameters are those of `base`. -/
def warpMove (ctx : WarpContext) (base : MemState) (w : WarpState) (bytes : Cell → Option Byte) :
    Option (StepOutcome × WarpState × (Cell → Option Byte)) :=
  if w.done then none
  else
    match warpStep ctx w (base.withBytes bytes) with
    | (.error _, _) => none
    | (.ok outcome, w', mem') => some (outcome, w', mem'.byte)

theorem warpMove_iff :
    warpMove ctx base w bytes = some (outcome, w', bytes') ↔
      w.done = false
        ∧ warpStep ctx w (base.withBytes bytes) = (.ok outcome, w', base.withBytes bytes') := by
  unfold warpMove
  cases hdone : w.done with
  | true => simp
  | false =>
      obtain ⟨r, hstep⟩ : ∃ r, warpStep ctx w (base.withBytes bytes) = r := ⟨_, rfl⟩
      rw [hstep, if_neg Bool.false_ne_true]
      obtain ⟨f | o, w₁, mem₁⟩ := r
      · simp
      · obtain ⟨-, -, -, -, hkeeps⟩ := warpStep_agree (.refl Set.univ _) (Set.subset_univ _) hstep
        have hrest : mem₁ = base.withBytes mem₁.byte := hkeeps.rest
        simp only [Option.some.injEq, Prod.mk.injEq, Except.ok.injEq, true_and]
        constructor
        · rintro ⟨rfl, rfl, rfl⟩
          exact ⟨rfl, rfl, hrest⟩
        · rintro ⟨rfl, rfl, rfl⟩
          exact ⟨rfl, rfl, MemState.byte_withBytes base bytes'⟩

theorem warpMove_frame {c : Cell} (hmove : warpMove ctx base w bytes = some (outcome, w', bytes'))
    (hc : c ∉ storedBy (warpAccesses ctx w (base.withBytes bytes))) : bytes' c = bytes c := by
  obtain ⟨-, hstep⟩ := warpMove_iff.mp hmove
  obtain ⟨-, -, -, -, hkeeps⟩ := warpStep_agree (.refl Set.univ _) (Set.subset_univ _) hstep
  simpa using hkeeps.bytes hc

theorem warpMove_depends {bytes₂ : Cell → Option Byte}
    (hmove : warpMove ctx base w bytes = some (outcome, w', bytes'))
    (hsame : Set.EqOn bytes₂ bytes (touchedBy (warpAccesses ctx w (base.withBytes bytes)))) :
    touchedBy (warpAccesses ctx w (base.withBytes bytes₂))
        = touchedBy (warpAccesses ctx w (base.withBytes bytes))
      ∧ storedBy (warpAccesses ctx w (base.withBytes bytes₂))
        = storedBy (warpAccesses ctx w (base.withBytes bytes))
      ∧ ∃ bytes₂', warpMove ctx base w bytes₂ = some (outcome, w', bytes₂')
        ∧ Set.EqOn bytes₂' bytes' (touchedBy (warpAccesses ctx w (base.withBytes bytes))) := by
  obtain ⟨hdone, hstep⟩ := warpMove_iff.mp hmove
  have hagree : (base.withBytes bytes).Agree
      (touchedBy (warpAccesses ctx w (base.withBytes bytes))) (base.withBytes bytes₂) := by
    refine ⟨by simp, ?_⟩
    simpa using hsame
  obtain ⟨mem₂', hstep₂, hagree', haccesses, -⟩ := warpStep_agree hagree subset_rfl hstep
  have hrest : mem₂' = base.withBytes mem₂'.byte := hagree'.rest
  refine ⟨by rw [haccesses], by rw [haccesses], mem₂'.byte, warpMove_iff.mpr ⟨hdone, ?_⟩, ?_⟩
  · rw [hstep₂, ← hrest]
  · simpa using hagree'.bytes

def warpMachine (ctx : WarpContext) (base : MemState) :
    Interleaving.Machine WarpState Cell (Option Byte) StepOutcome where
  step := warpMove ctx base
  touches w bytes := touchedBy (warpAccesses ctx w (base.withBytes bytes))
  writes w bytes := storedBy (warpAccesses ctx w (base.withBytes bytes))
  writes_touched _ _ := storedBy_subset _
  frame := warpMove_frame
  depends := warpMove_depends

end Machine

end ProtoGpu
