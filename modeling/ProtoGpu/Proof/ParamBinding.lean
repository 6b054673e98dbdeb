import ProtoGpu.Proof.ArgPacking
import ProtoGpu.Proof.EntryLookup
import ProtoGpu.Proof.SignatureText

/-!
# Arguments and the parameters they were passed for

A launch reads the signature of its kernel, lays the parameters out and packs the arguments by
position. A declaration whose type the parser does not know leaves no entry, and every argument
behind it is taken for the parameter before.
-/

namespace ProtoGpu

open Throwing

/-! ### A text with the kernel in it -/

structure KernelSource where
  before : List Text
  header : Text
  decls : List ParamDecl
  rest : List Text
  opening : Text
  after : List Text

namespace KernelSource

def lines (s : KernelSource) : List Text :=
  s.before ++ s.header :: (s.decls.map ParamDecl.line ++ (s.rest ++ s.opening :: s.after))

/-- The text defines the kernel once, with these declarations for its signature. -/
structure Form (s : KernelSource) (entry : Text) : Prop where
  header : isHeader s.header.trim = true
  named : headerName s.header.trim = entry
  noBody : Text.contains (headerRest s.header.trim) ['\x7b'] = false
  rest : ∀ t ∈ s.rest, isHeader t.trim = false ∧ t.trim ≠ ['\x7d'] ∧ t.trim.head? ≠ some '\x7b' ∧
    Text.contains t.trim ".param".toList = false
  opening : s.opening.trim.head? = some '\x7b' ∧
    Text.contains s.opening.trim ".param".toList = false
  once : ∀ t ∈ s.before ++ s.after, isHeader t.trim = true → headerName t.trim ≠ entry

end KernelSource

/-- The layout of a signature. -/
def layoutOf (decls : List ParamDecl) : List ParamDesc :=
  (decls.filterMap ParamDecl.raw).foldl addParam []

/-! ### The parser at the signature -/

variable {entry : Text}

/-- Between the header and the body of the kernel, with the parameters so far. -/
structure InSignature (entry : Text) (params : List ParamDesc) (kernels : List KernelTokens)
    (st : ParseState) : Prop where
  inEntry : st.inEntry = true
  inBody : st.inBody = false
  cur : st.cur = { name := entry, params := params }
  bodyLines : st.bodyLines = []
  kernels : st.kernels = kernels

variable {params : List ParamDesc} {kernels : List KernelTokens} {st : ParseState}

theorem parseLine_signature (order : AliasOrder) (fileName : String)
    (h : InSignature entry params kernels st) {line : Text}
    (hne : line.trim ≠ []) (hheader : isHeader line.trim = false)
    (hclosing : line.trim ≠ ['\x7d']) :
    parseLine order fileName st line
      = .ok (signatureLine { st with lineNo := st.lineNo + 1 } line.trim) := by
  unfold parseLine
  dsimp only
  rw [if_neg (by rw [List.isEmpty_iff]; exact hne),
    if_neg (by rw [hheader]; exact Bool.false_ne_true),
    if_neg (by rw [h.inEntry]; decide), if_neg (by rw [beq_iff_eq]; exact hclosing),
    if_neg (by rw [h.inBody]; exact Bool.false_ne_true)]

theorem signatureLine_next (h : InSignature entry params kernels st) {t : Text}
    (hopening : t.head? ≠ some '\x7b') :
    InSignature entry ((parseParamDecl t).elim params (addParam params)) kernels
      (signatureLine { st with lineNo := st.lineNo + 1 } t) where
  inEntry := h.inEntry
  inBody := by
    unfold signatureLine
    dsimp only
    rw [beq_eq_false_iff_ne]
    exact hopening
  cur := by
    unfold signatureLine
    dsimp only
    rw [h.cur]
    cases parseParamDecl t <;> rfl
  bodyLines := h.bodyLines
  kernels := h.kernels

theorem parse_decls (order : AliasOrder) (fileName : String)
    (h : InSignature entry params kernels st) (decls : List ParamDecl) :
    ∃ st', (decls.map ParamDecl.line).foldlM (parseLine order fileName) st = .ok st' ∧
      InSignature entry ((decls.filterMap ParamDecl.raw).foldl addParam params) kernels st' := by
  induction decls generalizing params st with
  | nil => exact ⟨st, rfl, h⟩
  | cons d decls ih =>
    have hne : d.line.trim ≠ [] := by rw [d.trim_line]; exact d.core_ne_nil
    have hline := parseLine_signature order fileName h hne (by rw [d.trim_line]; exact d.not_header)
      (by rw [d.trim_line]; exact d.core_ne_closing)
    have hnext := signatureLine_next h d.core_head
    rw [d.parseParamDecl_core] at hnext
    rw [d.trim_line] at hline
    obtain ⟨st', hrun, hend⟩ := ih hnext
    refine ⟨st', foldlM_cons_ok.mpr ⟨_, hline, hrun⟩, ?_⟩
    rw [List.filterMap_cons]
    cases hraw : d.raw with
    | none =>
      rw [hraw] at hend
      exact hend
    | some p =>
      rw [hraw] at hend
      exact hend

theorem parseParamDecl_absent {t : Text} (habsent : Text.contains t ".param".toList = false) :
    parseParamDecl t = none := by
  have hinner : Text.contains (Text.trim t.cutComment) ".param".toList = false := by
    rw [Bool.eq_false_iff, ne_eq, Text.contains_iff]
    rintro ⟨pre, post, hinner⟩
    obtain ⟨left, right, hcut, -, -⟩ := Text.trim_margins t.cutComment
    obtain ⟨comment, ht⟩ := Text.cutComment_pfx t
    have hcontains : Text.contains t ".param".toList = true := by
      rw [Text.contains_iff]
      refine ⟨left ++ pre, post ++ (right ++ comment), ?_⟩
      rw [← ht, hcut, hinner]
      simp only [List.append_assoc]
    rw [hcontains] at habsent
    cases habsent
  unfold parseParamDecl
  dsimp only
  rw [hinner]
  rfl

theorem parse_rest (order : AliasOrder) (fileName : String)
    (h : InSignature entry params kernels st) {rest : List Text}
    (hrest : ∀ t ∈ rest, isHeader t.trim = false ∧ t.trim ≠ ['\x7d'] ∧ t.trim.head? ≠ some '\x7b' ∧
      Text.contains t.trim ".param".toList = false) :
    ∃ st', rest.foldlM (parseLine order fileName) st = .ok st' ∧
      InSignature entry params kernels st' := by
  induction rest generalizing st with
  | nil => exact ⟨st, rfl, h⟩
  | cons t rest ih =>
    obtain ⟨hheader, hclosing, hopening, habsent⟩ := hrest t List.mem_cons_self
    have hrest' := fun u hu => hrest u (List.mem_cons_of_mem t hu)
    by_cases hempty : t.trim = []
    · have hline : parseLine order fileName st t = .ok { st with lineNo := st.lineNo + 1 } := by
        unfold parseLine
        dsimp only
        rw [if_pos (by rw [List.isEmpty_iff]; exact hempty)]
      have hskip : InSignature entry params kernels { st with lineNo := st.lineNo + 1 } :=
        ⟨h.inEntry, h.inBody, h.cur, h.bodyLines, h.kernels⟩
      obtain ⟨st', hrun, hend⟩ := ih hskip hrest'
      exact ⟨st', foldlM_cons_ok.mpr ⟨_, hline, hrun⟩, hend⟩
    · have hline := parseLine_signature order fileName h hempty hheader
        hclosing
      have hnext := signatureLine_next h hopening
      rw [parseParamDecl_absent habsent] at hnext
      obtain ⟨st', hrun, hend⟩ := ih hnext hrest'
      exact ⟨st', foldlM_cons_ok.mpr ⟨_, hline, hrun⟩, hend⟩

/-- The brace that opens the body. -/
theorem parse_opening (order : AliasOrder) (fileName : String)
    (h : InSignature entry params kernels st) {t : Text} (hopening : t.trim.head? = some '\x7b')
    (habsent : Text.contains t.trim ".param".toList = false) :
    ∃ st', parseLine order fileName st t = .ok st' ∧ st'.inEntry = true ∧ st'.inBody = true ∧
      st'.cur = { name := entry, params := params } ∧ st'.bodyLines = [] ∧
        st'.kernels = kernels := by
  obtain ⟨tail, ht⟩ : ∃ tail, t.trim = '\x7b' :: tail := by
    cases hcase : t.trim with
    | nil =>
      rw [hcase] at hopening
      cases hopening
    | cons c tail =>
      rw [hcase, List.head?_cons, Option.some.injEq] at hopening
      exact ⟨tail, by rw [hopening]⟩
  have hheader : isHeader t.trim = false := by
    rw [ht]
    rfl
  have hline := parseLine_signature order fileName h
    (by rw [ht]; exact nofun) hheader (by rw [ht]; exact nofun)
  refine ⟨_, hline, h.inEntry, ?_, ?_, h.bodyLines, h.kernels⟩
  · unfold signatureLine
    dsimp only
    rw [hopening]
    rfl
  · unfold signatureLine
    dsimp only
    rw [parseParamDecl_absent habsent]
    exact h.cur

/-! ### The rest of the text -/

/-- Every kernel of the name has parameters with the property, and one still open is in its body. -/
structure Kept (entry : Text) (P : List ParamDesc → Prop) (st : ParseState) : Prop where
  kernels : ∀ k ∈ st.kernels, k.name = entry → P k.params
  cur : st.inEntry = true → st.cur.name = entry → st.inBody = true ∧ P st.cur.params

section
variable {order : AliasOrder} {fileName : String} {P : List ParamDesc → Prop} {st' : ParseState}

theorem Kept.step {t : Text} (h : Kept entry P st)
    (hother : isHeader t.trim = true → headerName t.trim ≠ entry)
    (hline : parseLine order fileName st t = .ok st') : Kept entry P st' := by
  cases parseLine_moves hline with
  | skip _ => exact ⟨h.kernels, h.cur⟩
  | header hheader => exact ⟨h.kernels, fun _ hname => absurd hname (hother hheader)⟩
  | close k _ hin hclose =>
    obtain ⟨hname, hparams⟩ := closeKernel_signature hclose
    refine ⟨fun k' hk' hentry => ?_, fun hout => absurd hout Bool.false_ne_true⟩
    rcases List.mem_append.mp hk' with hk' | hk'
    · exact h.kernels k' hk' hentry
    · obtain rfl := List.mem_singleton.mp hk'
      rw [hparams]
      exact (h.cur hin (hname.symm.trans hentry)).2
  | body _ _ _ _ _ => exact ⟨h.kernels, h.cur⟩
  | signature _ _ _ hin hbody =>
    refine ⟨h.kernels, fun _ hentry => ?_⟩
    have hname : st.cur.name = entry := by
      rw [← hentry]
      unfold signatureLine
      dsimp only
      split <;> rfl
    rw [(h.cur hin hname).1] at hbody
    cases hbody

theorem Kept.run {lines : List Text} (h : Kept entry P st)
    (hother : ∀ t ∈ lines, isHeader t.trim = true → headerName t.trim ≠ entry)
    (hrun : lines.foldlM (parseLine order fileName) st = .ok st') : Kept entry P st' :=
  foldlM_invariant_mem (fun t ht _ _ hs hline => hs.step (hother t ht) hline) h hrun

end

/-- The kernel the text defines has the layout of its signature. -/
theorem params_of_source {order : AliasOrder} {fileName : String} {s : KernelSource}
    (hform : s.Form entry) {text : Text} (hlines : text.getlines = s.lines) {m : ModuleTokens}
    (hparse : parsePtxTextTokens order text fileName = .ok m) {k : KernelTokens}
    (hk : k ∈ m.kernels) (hname : k.name = entry) : k.params = layoutOf s.decls := by
  obtain ⟨st, hrun, hm⟩ := bind_ok.mp hparse
  cases hm
  rw [hlines, KernelSource.lines] at hrun
  obtain ⟨st₁, hbefore, hrun⟩ := foldlM_append_ok.mp hrun
  obtain ⟨st₂, hheader, hrun⟩ := foldlM_cons_ok.mp hrun
  obtain ⟨st₃, hdecls, hrun⟩ := foldlM_append_ok.mp hrun
  obtain ⟨st₄, hrest, hrun⟩ := foldlM_append_ok.mp hrun
  obtain ⟨st₅, hopening, hafter⟩ := foldlM_cons_ok.mp hrun
  have hnone : Kept entry (fun _ => False) st₁ := by
    have hinit : Kept entry (fun _ => False) {} :=
      ⟨fun _ hk => absurd hk List.not_mem_nil, fun hin => absurd hin Bool.false_ne_true⟩
    exact hinit.run (fun t ht => hform.once t (List.mem_append_left _ ht)) hbefore
  have hstart : InSignature entry [] st₁.kernels st₂ := by
    cases parseLine_moves hheader with
    | header _ =>
      refine ⟨rfl, hform.noBody, ?_, rfl, rfl⟩
      rw [← hform.named]
      rfl
    | skip hskip =>
      have hisHeader := hform.header
      rcases hskip with hempty | ⟨hno, -⟩
      · rw [hempty] at hisHeader
        exact absurd hisHeader (by decide)
      · rw [hno] at hisHeader
        cases hisHeader
    | close _ ht _ _ => exact absurd (ht ▸ hform.header) (by decide)
    | body _ hno _ _ _ => exact absurd hform.header (by rw [hno]; exact Bool.false_ne_true)
    | signature _ hno _ _ _ => exact absurd hform.header (by rw [hno]; exact Bool.false_ne_true)
  obtain ⟨_, hdecls', hsig⟩ := parse_decls order fileName hstart s.decls
  cases hdecls.symm.trans hdecls'
  obtain ⟨_, hrest', hsig'⟩ := parse_rest order fileName hsig hform.rest
  cases hrest.symm.trans hrest'
  obtain ⟨_, hopening', hin, hbody, hcur, -, hkernels⟩ := parse_opening order fileName
    hsig' hform.opening.1 hform.opening.2
  cases hopening.symm.trans hopening'
  have hkept : Kept entry (· = layoutOf s.decls) st₅ := by
    refine ⟨fun k hk hentry => ?_, fun _ _ => ⟨hbody, ?_⟩⟩
    · rw [hkernels] at hk
      exact (hnone.kernels k hk hentry).elim
    · rw [hcur]
      rfl
  exact (hkept.run (fun t ht => hform.once t (List.mem_append_right _ ht)) hafter).kernels k hk
    hname

/-! ### The layout of a signature -/

theorem addParams_map {β : Type*} (f : ParamDesc → β) (hf : ∀ p o, f { p with offset := o } = f p)
    (params rest : List ParamDesc) :
    (rest.foldl addParam params).map f = params.map f ++ rest.map f := by
  induction rest generalizing params with
  | nil => simp
  | cons p rest ih =>
    rw [List.foldl_cons, ih, addParam, List.map_append, List.map_singleton, hf, List.append_assoc]
    rfl

theorem forall_addParams {P : ParamDesc → Prop} (rest : List ParamDesc)
    (hadd : ∀ params, ∀ p ∈ rest, P { p with offset := alignUpU32 (paramsEnd params) p.align })
    {params : List ParamDesc} (hparams : ∀ p ∈ params, P p) :
    ∀ p ∈ rest.foldl addParam params, P p := by
  induction rest generalizing params with
  | nil => exact hparams
  | cons q rest ih =>
    refine ih (fun params p hp => hadd params p (List.mem_cons_of_mem q hp)) fun p hp => ?_
    rcases List.mem_append.mp hp with hp | hp
    · exact hparams p hp
    · obtain rfl := List.mem_singleton.mp hp
      exact hadd params q List.mem_cons_self

theorem natural_raw {decls : List ParamDecl} : ∀ p ∈ decls.filterMap ParamDecl.raw, p.Natural := by
  intro p hp
  obtain ⟨d, -, hraw⟩ := List.mem_filterMap.mp hp
  obtain ⟨t, -, rfl⟩ := Option.map_eq_some_iff.mp hraw
  exact natural_rawParam _ t

theorem natural_layoutOf (decls : List ParamDecl) : ∀ p ∈ layoutOf decls, p.Natural := by
  refine forall_addParams _ (fun params p hp => ?_) fun _ hp => absurd hp List.not_mem_nil
  have hp := natural_raw p hp
  exact ⟨hp.size, hp.align⟩

theorem quad_layoutOf (decls : List ParamDecl) : ∀ p ∈ layoutOf decls, p.start % 4 = 0 := by
  refine forall_addParams _ (fun params p hp => ?_) fun _ hp => absurd hp List.not_mem_nil
  have hp := natural_raw p hp
  have hstart := start_addParam params hp rfl
  have haligned : alignedTo p.type (paramsEnd params).toNat % 4 = 0 := by
    unfold alignedTo
    rcases p.type.bytes_cases with ht | ht <;> rw [ht] <;> omega
  change (alignUpU32 (paramsEnd params) p.align).toNat % 4 = 0
  omega

theorem apart_layoutOf_iff (decls : List ParamDecl) :
    (layoutOf decls).Pairwise ParamDesc.Apart
      ↔ fitsFrom 0 (decls.filterMap fun d => d.type.param) = true := by
  have htypes : (decls.filterMap ParamDecl.raw).map ParamDesc.type
      = decls.filterMap fun d => d.type.param := by
    rw [List.map_filterMap]
    congr 1
    funext d
    unfold ParamDecl.raw
    cases d.type.param <;> rfl
  rw [← htypes]
  exact Laid.nil.apart_iff natural_raw

/-- Every declared type is one the parser knows. -/
def AllKnown (decls : List ParamDecl) : Prop := ∀ d ∈ decls, d.type = .u32 ∨ d.type = .u64

theorem raw_isSome_iff (d : ParamDecl) : d.raw.isSome = true ↔ d.type = .u32 ∨ d.type = .u64 := by
  rw [ParamDecl.raw, Option.isSome_map]
  generalize d.type = t
  cases t <;> decide

theorem length_layoutOf (decls : List ParamDecl) :
    (layoutOf decls).length = (decls.filterMap ParamDecl.raw).length := by
  have hmap := congrArg List.length (addParams_map ParamDesc.name (fun _ _ => rfl) []
    (decls.filterMap ParamDecl.raw))
  simpa [layoutOf] using hmap

theorem length_layoutOf_iff (decls : List ParamDecl) :
    (layoutOf decls).length = decls.length ↔ AllKnown decls := by
  rw [length_layoutOf, List.filterMap_length_eq_length]
  exact forall₂_congr fun d _ => raw_isSome_iff d

theorem raw_of_known {d : ParamDecl} (hd : d.type = .u32 ∨ d.type = .u64) :
    ∃ p, d.raw = some p ∧ (p.name, p.type.bytes) = (String.ofList d.name, d.type.bytes) := by
  unfold ParamDecl.raw
  rcases hd with hd | hd <;> rw [hd] <;> exact ⟨_, rfl, rfl⟩

theorem raws_of_known {decls : List ParamDecl} (hknown : AllKnown decls) :
    (decls.filterMap ParamDecl.raw).map (fun p => (p.name, p.type.bytes))
      = decls.map fun d => (String.ofList d.name, d.type.bytes) := by
  induction decls with
  | nil => rfl
  | cons d decls ih =>
    obtain ⟨p, hraw, hp⟩ := raw_of_known (hknown d List.mem_cons_self)
    rw [List.filterMap_cons_some hraw, List.map_cons, List.map_cons, hp,
      ih fun e he => hknown e (List.mem_cons_of_mem d he)]

/-- The layout has the declared names and sizes, in order, when every type is known. -/
theorem layoutOf_known {decls : List ParamDecl} (hknown : AllKnown decls) :
    (layoutOf decls).map (fun p => (p.name, p.type.bytes))
      = decls.map fun d => (String.ofList d.name, d.type.bytes) := by
  have hmap := addParams_map (fun p => (p.name, p.type.bytes)) (fun _ _ => rfl) []
    (decls.filterMap ParamDecl.raw)
  rw [raws_of_known hknown] at hmap
  exact hmap

/-! ### Launches -/

section
variable {order : AliasOrder} {host : Addr → Byte} {deviceMemory : DeviceMemory}
  {kernelParams : Nat → Addr} {kargs : KernelArgs}

theorem pack_of_bindLaunchArgs {s : KernelSource} (hform : s.Form entry) {text : Text}
    (hlines : text.getlines = s.lines)
    (hbind : bindLaunchArgs order host deviceMemory text entry (some kernelParams) = .ok kargs) :
    packKernelArgsMvp host deviceMemory (layoutOf s.decls) (some kernelParams) = .ok kargs := by
  unfold bindLaunchArgs at hbind
  split at hbind
  · cases hbind
  · next m hparse =>
    split at hbind
    · cases hbind
    · next k hk =>
      obtain ⟨hmem, hname⟩ := bindKernelByName_name hk
      rw [params_of_source hform hlines hparse hmem hname] at hbind
      split at hbind
      · cases hbind
      · next hpack =>
        cases hbind
        exact hpack

end

/-- The signature in a text of its own. -/
def plainSource (decls : List ParamDecl) : KernelSource where
  before := []
  header := ".visible .entry k(".toList
  decls := decls
  rest := [[')']]
  opening := ['\x7b']
  after := [['\x7d']]

def plainText (decls : List ParamDecl) : Text :=
  (plainSource decls).lines.flatMap fun t => t ++ ['\n']

theorem no_newline_line (d : ParamDecl) : '\n' ∉ d.line := by
  have hgap : '\n' ∉ d.lead ++ (d.afterParam ++ (d.afterType ++ d.trail)) :=
    fun h => absurd (d.blanks _ h) (by decide)
  have hword : '\n' ∉ d.name ++ d.sep := fun h => absurd (d.word_not_space _ h) (by decide)
  have htype : '\n' ∉ d.type.text := fun h => absurd (d.type_not_space _ h) (by decide)
  simp only [List.mem_append, not_or] at hgap hword
  unfold ParamDecl.line ParamDecl.core
  simp only [List.mem_append, not_or]
  exact ⟨hgap.1, ⟨by decide, hgap.2.1, htype, hgap.2.2.1, hword⟩, hgap.2.2.2⟩

theorem form_plain (decls : List ParamDecl) : (plainSource decls).Form ['k'] where
  header := by rfl
  named := by rfl
  noBody := by rfl
  rest := by
    intro t ht
    obtain rfl := List.mem_singleton.mp ht
    exact ⟨by rfl, by decide, by decide, by rfl⟩
  opening := ⟨by rfl, by rfl⟩
  once := by
    intro t ht
    obtain rfl := List.mem_singleton.mp ht
    decide

theorem getlines_plain (decls : List ParamDecl) :
    Text.getlines (plainText decls) = (plainSource decls).lines := by
  apply Text.getlines_flatMap
  intro t ht
  simp only [KernelSource.lines, plainSource, List.nil_append, List.mem_cons, List.mem_append,
    List.mem_map, List.not_mem_nil, or_false] at ht
  rcases ht with rfl | ⟨d, -, rfl⟩ | rfl | rfl | rfl
  · decide
  · exact no_newline_line d
  · decide
  · decide
  · decide

theorem closeKernel_empty (order : AliasOrder) (fileName : String) (cur : KernelTokens) :
    ∃ k, closeKernel order fileName cur [] = .ok k := ⟨_, rfl⟩

/-- The plain text parses, and its kernel binds. -/
theorem bind_plain (order : AliasOrder) (fileName : String) (decls : List ParamDecl) :
    ∃ m k, parsePtxTextTokens order (plainText decls) fileName = .ok m ∧
      bindKernelByName m ['k'] = .ok k := by
  have hstart : ∃ st, parseLine order fileName {} (plainSource decls).header = .ok st ∧
      InSignature ['k'] [] [] st := ⟨_, rfl, rfl, rfl, rfl, rfl, rfl⟩
  obtain ⟨st₁, hheader, hst₁⟩ := hstart
  obtain ⟨st₂, hdecls, hst₂⟩ := parse_decls order fileName hst₁ decls
  obtain ⟨st₃, hrest, hst₃⟩ := parse_rest order fileName hst₂ (form_plain decls).rest
  obtain ⟨st₄, hopening, hin, hbody, hcur, hlines, hkernels⟩ := parse_opening order fileName hst₃
    (form_plain decls).opening.1 (form_plain decls).opening.2
  obtain ⟨k, hclose⟩ := closeKernel_empty order fileName st₄.cur
  have hend : ∃ st₅, parseLine order fileName st₄ ['\x7d'] = .ok st₅ ∧ st₅.kernels = [k] := by
    unfold parseLine
    dsimp only
    rw [if_neg (by decide), if_neg (by decide), if_neg (by rw [hin]; decide), if_pos (by decide),
      hlines, hclose]
    refine ⟨_, rfl, ?_⟩
    dsimp only
    rw [hkernels]
    rfl
  obtain ⟨st₅, hclosing, hk⟩ := hend
  have hname : k.name = ['k'] := by rw [closeKernel_name hclose, hcur]
  refine ⟨{ kernels := st₅.kernels }, k, ?_, ?_⟩
  · refine bind_ok.mpr ⟨st₅, ?_, rfl⟩
    rw [getlines_plain]
    refine foldlM_cons_ok.mpr ⟨st₁, hheader, foldlM_append_ok.mpr ⟨st₂, hdecls, ?_⟩⟩
    refine foldlM_append_ok.mpr ⟨st₃, hrest, foldlM_cons_ok.mpr ⟨st₄, hopening, ?_⟩⟩
    exact foldlM_cons_ok.mpr ⟨st₅, hclosing, rfl⟩
  · unfold bindKernelByName
    dsimp only
    rw [hk, List.find?_cons_of_pos (by rw [hname]; rfl)]

theorem bindLaunchArgs_plain {host : Addr → Byte} {deviceMemory : DeviceMemory}
    {kernelParams : Nat → Addr} {kargs : KernelArgs} (order : AliasOrder) {decls : List ParamDecl}
    (hpack : packKernelArgsMvp host deviceMemory (layoutOf decls) (some kernelParams) = .ok kargs) :
    bindLaunchArgs order host deviceMemory (plainText decls) ['k'] (some kernelParams)
      = .ok kargs := by
  obtain ⟨m, k, hparse, hbind⟩ := bind_plain order "<fatbin>" decls
  obtain ⟨hmem, hname⟩ := bindKernelByName_name hbind
  have hparams := params_of_source (form_plain decls) (getlines_plain decls) hparse hmem hname
  unfold bindLaunchArgs
  rw [hparse]
  dsimp only
  rw [hbind]
  dsimp only
  rw [hparams, show layoutOf (plainSource decls).decls = layoutOf decls from rfl, hpack]

/-! ### The law -/

/-- The layout has one entry for each declaration, and each declared name is read as it was
passed. -/
structure BoundAsPassed (decls : List ParamDecl) (host : Addr → Byte) (kernelParams : Nat → Addr)
    (kargs : KernelArgs) : Prop where
  names : kargs.layout.map ParamDesc.name = decls.map fun d => String.ofList d.name
  reads : ∀ i d, decls[i]? = some d → ∀ mgr : AddrSpaceManager,
    (mgr.setParams kargs).readParamSymbol (String.ofList d.name) (BitVec.ofNat 64 d.type.bytes)
      = some (readHost host (kernelParams i) d.type.bytes)

/-- Every launch of a kernel with the signature is rejected or binds each argument to the parameter
it was passed for. -/
def ArgsBound (decls : List ParamDecl) : Prop :=
  ∀ (order : AliasOrder) (s : KernelSource) (entry text : Text) (host : Addr → Byte)
    (deviceMemory : DeviceMemory) (kernelParams : Nat → Addr),
    s.decls = decls → s.Form entry → text.getlines = s.lines →
    (∃ err, bindLaunchArgs order host deviceMemory text entry (some kernelParams) = .error err) ∨
    ∃ kargs, bindLaunchArgs order host deviceMemory text entry (some kernelParams) = .ok kargs ∧
      BoundAsPassed decls host kernelParams kargs

section
variable {decls : List ParamDecl} {host : Addr → Byte} {deviceMemory : DeviceMemory}
  {kernelParams : Nat → Addr} {kargs : KernelArgs}

theorem names_layoutOf (hknown : AllKnown decls) :
    (layoutOf decls).map ParamDesc.name = decls.map fun d => String.ofList d.name := by
  have hfst := congrArg (List.map Prod.fst) (layoutOf_known hknown)
  rw [List.map_map, List.map_map] at hfst
  exact hfst

/-- A declaration and its entry stand at the same index. -/
theorem entry_of_decl (hknown : AllKnown decls) (i : Nat) :
    (layoutOf decls)[i]?.map (fun p => (p.name, p.type.bytes))
      = decls[i]?.map fun d => (String.ofList d.name, d.type.bytes) := by
  rw [← List.getElem?_map, ← List.getElem?_map, layoutOf_known hknown]

theorem readsBack_iff (hknown : AllKnown decls) :
    ReadsBack host kernelParams (layoutOf decls) kargs ↔
      ∀ i d, decls[i]? = some d → ∀ mgr : AddrSpaceManager,
        (mgr.setParams kargs).readParamSymbol (String.ofList d.name) (BitVec.ofNat 64 d.type.bytes)
          = some (readHost host (kernelParams i) d.type.bytes) := by
  constructor
  · intro hreads i d hd mgr
    have hentry := entry_of_decl hknown i
    rw [hd, Option.map_some, Option.map_eq_some_iff] at hentry
    obtain ⟨p, hp, hsame⟩ := hentry
    rw [Prod.mk.injEq] at hsame
    rw [← hsame.1, ← hsame.2]
    exact hreads i p hp mgr
  · intro hreads i p hp mgr
    have hentry := (entry_of_decl hknown i).symm
    rw [hp, Option.map_some, Option.map_eq_some_iff] at hentry
    obtain ⟨d, hd, hsame⟩ := hentry
    rw [Prod.mk.injEq] at hsame
    rw [← hsame.1, ← hsame.2]
    exact hreads i d hd mgr

theorem nodup_names_iff (hknown : AllKnown decls) :
    ((layoutOf decls).Pairwise fun p q => p.name ≠ q.name) ↔ (decls.map ParamDecl.name).Nodup := by
  have hinj : Function.Injective String.ofList := fun a b h => by
    simpa using congrArg String.toList h
  have hmap : decls.map (fun d => String.ofList d.name)
      = (decls.map ParamDecl.name).map String.ofList := by
    rw [List.map_map]
    rfl
  rw [← List.nodup_map_iff hinj, ← hmap, ← names_layoutOf hknown, List.Nodup, List.pairwise_map]

theorem bound_of_packed (hknown : AllKnown decls) (hnames : (decls.map ParamDecl.name).Nodup)
    (hfits : fitsFrom 0 (decls.filterMap fun d => d.type.param) = true)
    (hpack : packKernelArgsMvp host deviceMemory (layoutOf decls) (some kernelParams) = .ok kargs) :
    BoundAsPassed decls host kernelParams kargs where
  names := by
    rw [(packKernelArgs_blob (natural_layoutOf decls) hpack).1]
    exact names_layoutOf hknown
  reads := (readsBack_iff hknown).mp (reads_back (natural_layoutOf decls)
    ((apart_layoutOf_iff decls).mpr hfits) ((nodup_names_iff hknown).mpr hnames) hpack)

/-- Where every launch binds as passed, so does the packing of the marked arguments. -/
theorem ArgsBound.packed (hbound : ArgsBound decls)
    (hpack : packKernelArgsMvp host deviceMemory (layoutOf decls) (some kernelParams) = .ok kargs) :
    BoundAsPassed decls host kernelParams kargs := by
  have hbind := bindLaunchArgs_plain .inserted hpack
  rcases hbound .inserted (plainSource decls) ['k'] (plainText decls) host deviceMemory
    kernelParams rfl
    (form_plain decls) (getlines_plain decls) with ⟨err, herr⟩ | ⟨kargs', hok, hall⟩
  · rw [hbind] at herr
    cases herr
  · rw [hbind] at hok
    cases hok
    exact hall

end

/-- **Argument binding.** The arguments of every launch go to the parameters they were passed for
exactly when the signature has no type but `.u32` and `.u64`, no name twice, and a layout within `2
^ 32` bytes. -/
theorem args_bound_iff (decls : List ParamDecl) :
    ArgsBound decls ↔ AllKnown decls ∧ (decls.map ParamDecl.name).Nodup ∧
      fitsFrom 0 (decls.filterMap fun d => d.type.param) = true := by
  constructor
  · intro hbound
    have hnatural := natural_layoutOf decls
    have hknown : AllKnown decls := by
      obtain ⟨kargs, hpack⟩ := packKernelArgs_ok hnatural fun p _ j =>
        packAccepts_marks (fun _ => false) p j
      have hnames := congrArg List.length (hbound.packed hpack).names
      rw [(packKernelArgs_blob hnatural hpack).1, List.length_map, List.length_map] at hnames
      exact (length_layoutOf_iff decls).mp hnames
    have hnames : (layoutOf decls).Pairwise fun p q => p.name ≠ q.name := by
      by_contra hsame
      obtain ⟨marked, kargs, hpack, hnot⟩ := not_readsBack_of_same_name hnatural hsame
      exact hnot ((readsBack_iff hknown).mpr (hbound.packed hpack).reads)
    have hapart : (layoutOf decls).Pairwise ParamDesc.Apart := by
      by_contra hmeet
      obtain ⟨marked, kargs, hpack, hnot⟩ :=
        not_readsBack_of_overlap hnatural (quad_layoutOf decls) hnames hmeet
      exact hnot ((readsBack_iff hknown).mpr (hbound.packed hpack).reads)
    exact ⟨hknown, (nodup_names_iff hknown).mp hnames, (apart_layoutOf_iff decls).mp hapart⟩
  · rintro ⟨hknown, hnames, hfits⟩ order s entry text host deviceMemory kernelParams rfl
      hform hlines
    cases hbind : bindLaunchArgs order host deviceMemory text entry (some kernelParams) with
    | error err => exact .inl ⟨err, rfl⟩
    | ok kargs =>
      exact .inr ⟨kargs, rfl, bound_of_packed hknown hnames hfits
        (pack_of_bindLaunchArgs hform hlines hbind)⟩

/-! ### Two parameters set with single blanks -/

theorem isBlank_of_spaced : ∀ c ∈ ([] : Text) ++ ([' '] ++ ([' '] ++ [])), isBlank c = true :=
  List.all_eq_true.mp rfl

theorem gaps_of_spaced : [' '] ≠ ([] : Text) ∧ [' '] ≠ ([] : Text) :=
  ⟨List.cons_ne_nil _ _, List.cons_ne_nil _ _⟩

theorem isNameChar_of_mem_a : ∀ c ∈ ['a'], isNameChar c = true := List.all_eq_true.mp rfl

theorem isNameChar_of_mem_b : ∀ c ∈ ['b'], isNameChar c = true := List.all_eq_true.mp rfl

/-- A `.s32` before a `.u32`. -/
def signedFirst : List ParamDecl :=
  [{ lead := [], afterParam := [' '], type := .s32, afterType := [' '], name := ['a']
     sep := [','], trail := [], blanks := isBlank_of_spaced, gaps := gaps_of_spaced
     named := by decide, letters := isNameChar_of_mem_a, seps := by simp },
   { lead := [], afterParam := [' '], type := .u32, afterType := [' '], name := ['b']
     sep := [], trail := [], blanks := isBlank_of_spaced, gaps := gaps_of_spaced
     named := by decide, letters := isNameChar_of_mem_b, seps := by simp }]

/-- The launch goes through, and `ld.param` of `b` reads what was passed for `a`. -/
theorem second_reads_first :
    ∃ kargs, bindLaunchArgs .inserted (fun a => if a = 0x20 then 9 else 7) {}
    (plainText signedFirst)
        ['k'] (some fun i => if i = 0 then 0x10 else 0x20) = .ok kargs ∧
      kargs.layout.map ParamDesc.name = ["b"] ∧
      ((({} : AddrSpaceManager).setParams kargs).readParamSymbol "b" 4 = some [7, 7, 7, 7]) ∧
      readHost (fun a => if a = 0x20 then 9 else 7) 0x20 4 = [9, 7, 7, 7] :=
  ⟨_, rfl, by decide, by decide, by decide⟩

theorem signed_first_misbound : ¬ ArgsBound signedFirst := by
  intro hbound
  obtain ⟨kargs, hbind, hnames, -⟩ := second_reads_first
  rcases hbound .inserted (plainSource signedFirst) ['k'] (plainText signedFirst) _ _ _ rfl
    (form_plain signedFirst) (getlines_plain signedFirst) with ⟨err, herr⟩ | ⟨kargs', hok, hall⟩
  · rw [hbind] at herr
    cases herr
  · rw [hbind] at hok
    cases hok
    have hboth := hall.names
    rw [hnames] at hboth
    exact absurd (congrArg List.length hboth) (by decide)

end ProtoGpu
