import ProtoGpu.Proof.BodyPasses
import ProtoGpu.Proof.TextSearch

/-!
# The body of a kernel

The parser keeps no brace depth: a kernel ends at the first line that is a closing brace. A body
with scope blocks in it keeps all its instructions when none stands behind the end of the first
block.
-/

namespace ProtoGpu

open Throwing

/-! ### Texts with blocks -/

/-- The line, without the blanks around it, is an instruction. -/
def isInstText (t : Text) : Bool := isInstLine (0, t) && t != ['\x7d']

/-- The line is one instruction, label or directive, or has none, and no brace begins it. -/
structure PlainLine (t : Text) : Prop where
  noHeader : isHeader t.trim = false
  noOpening : t.trim.head? ≠ some '\x7b'
  noClosing : t.trim.head? ≠ some '\x7d'
  scans : ∀ scan no, ∃ scan', scanLine scan (no, t.trim) = .ok scan'
  reads : isInstText t.trim = true →
    ∀ fileName no, ∃ inst, bodyInst fileName (no, t.trim) = .ok (some inst)

/-- Lines whose scope blocks are closed in the order they are opened, to any depth. -/
inductive Balanced : List Text → Prop
  | nil : Balanced []
  | line {t : Text} {rest : List Text} : PlainLine t → Balanced rest → Balanced (t :: rest)
  | block {opening closing : Text} {inner rest : List Text} :
      opening.trim.head? = some '\x7b' → Balanced inner → closing.trim = ['\x7d'] →
      Balanced rest → Balanced (opening :: (inner ++ closing :: rest))

/-- A line of a signature, before the brace that opens the body. -/
structure SignatureLine (t : Text) : Prop where
  noHeader : isHeader t.trim = false
  noOpening : t.trim.head? ≠ some '\x7b'
  noClosing : t.trim ≠ ['\x7d']

structure EntryText where
  preamble : List Text
  header : Text
  signature : List Text
  opening : Option Text
  body : List Text
  closing : Text

namespace EntryText

def lines (e : EntryText) : List Text :=
  e.preamble ++ e.header :: (e.signature ++ (e.opening.toList ++ (e.body ++ [e.closing])))

/-- The lines are a kernel definition, with what stands before it. -/
structure Form (e : EntryText) : Prop where
  preamble : ∀ t ∈ e.preamble, isHeader t.trim = false
  header : isHeader e.header.trim = true
  opens : if Text.contains (headerRest e.header.trim) ['\x7b'] then
      e.signature = [] ∧ e.opening = none
    else (∀ t ∈ e.signature, SignatureLine t) ∧
      ∃ opening, e.opening = some opening ∧ opening.trim.head? = some '\x7b'
  body : Balanced e.body
  closing : e.closing.trim = ['\x7d']

end EntryText

/-- The text is made of the definitions, with no header behind them. -/
structure TextForm (text : Text) (entries : List EntryText) : Prop where
  form : ∀ e ∈ entries, e.Form
  lines : ∃ trailer, text.getlines = entries.flatMap EntryText.lines ++ trailer ∧
    ∀ t ∈ trailer, isHeader t.trim = false

/-- The instruction lines among some lines. -/
def instLines (lines : List Text) : List Text := (lines.map Text.trim).filter isInstText

/-- The instruction is that of the line, up to the rewriting of its operands. -/
def Renders (fileName : String) (inst : TokenizedPtxInst) (t : Text) : Prop :=
  ∃ no raw order labelToPc regAlias, bodyInst fileName (no, t) = .ok (some raw) ∧
    inst = finishInst order labelToPc regAlias raw

/-! ### A body closes -/

/-- A line of a body both passes can read. -/
structure Readable (line : Nat × Text) : Prop where
  noClosing : line.2 ≠ ['\x7d']
  scans : ∀ scan, ∃ scan', scanLine scan line = .ok scan'
  reads : isInstLine line = true → ∀ fileName, ∃ inst, bodyInst fileName line = .ok (some inst)

theorem Readable.bodyInst_ok {line : Nat × Text} (hline : Readable line) (fileName : String) :
    ∃ inst, bodyInst fileName line = .ok inst := by
  cases hinst : isInstLine line with
  | false => exact ⟨none, by rw [bodyInst, hinst]; rfl⟩
  | true =>
    obtain ⟨inst, hinst⟩ := hline.reads hinst fileName
    exact ⟨some inst, hinst⟩

theorem closeKernel_total {lines : List (Nat × Text)} (hlines : ∀ l ∈ lines, Readable l)
    (order : AliasOrder) (fileName : String) (cur : KernelTokens) :
    ∃ k, closeKernel order fileName cur lines = .ok k := by
  have hscans : ∀ l ∈ lines, ∀ scan, ∃ scan', scanLine scan l = .ok scan' :=
    fun l hl => (hlines l hl).scans
  obtain ⟨scan, hscan⟩ := foldlM_total hscans { cur := cur }
  have hemits : ∀ l ∈ lines, ∀ insts, ∃ insts', emitLine order fileName scan.labelToPc
      (scan.pendingNamed.foldl assignAlias { cur := scan.cur }).regAlias insts l = .ok insts' := by
    intro l hl insts
    obtain ⟨inst, hinst⟩ := (hlines l hl).bodyInst_ok fileName
    rw [emitLine_eq, hinst]
    exact ⟨_, rfl⟩
  obtain ⟨insts, hinsts⟩ := foldlM_total hemits
    (scan.pendingNamed.foldl assignAlias { cur := scan.cur }).cur.insts
  exact ⟨_, bind_ok.mpr ⟨scan, hscan, bind_ok.mpr ⟨insts, hinsts, rfl⟩⟩⟩

/-- The instructions a readable body gives are those of its instruction lines. -/
theorem renders_found {fileName : String} {lines : List (Nat × Text)}
    {found : List (Option TokenizedPtxInst)} (hlines : ∀ l ∈ lines, Readable l)
    (hfound : List.Forall₂ (fun line inst => bodyInst fileName line = .ok inst) lines found)
    (order : AliasOrder) (labelToPc : List (Text × Nat)) (regAlias : List (Text × Text)) :
    List.Forall₂ (Renders fileName)
      (found.filterMap (Option.map (finishInst order labelToPc regAlias)))
      ((lines.map Prod.snd).filter isInstText) := by
  induction hfound with
  | nil => exact .nil
  | @cons line inst lines found hinst _ ih =>
    have hrest := ih fun l hl => hlines l (List.mem_cons_of_mem _ hl)
    have hline := hlines line (List.mem_cons_self ..)
    have hreads := hline.reads
    have hsame : isInstText line.2 = isInstLine line := by
      rw [isInstText, bne_iff_ne.mpr hline.noClosing, Bool.and_true]
      rfl
    rw [List.map_cons, List.filter_cons]
    rw [hsame]
    cases hcase : isInstLine line with
    | true =>
      obtain ⟨raw, hraw⟩ := hreads hcase fileName
      rw [hinst, Except.ok.injEq] at hraw
      subst hraw
      exact .cons ⟨line.1, raw, order, labelToPc, regAlias, hinst, rfl⟩ hrest
    | false =>
      have hnone : inst = none := by
        rw [bodyInst, hcase] at hinst
        exact (Except.ok.inj hinst).symm
      subst hnone
      exact hrest

theorem closeKernel_renders {order : AliasOrder} {fileName : String} {cur k : KernelTokens}
    {lines : List (Nat × Text)} (hlines : ∀ l ∈ lines, Readable l) (hopen : cur.insts = [])
    (hclose : closeKernel order fileName cur lines = .ok k) :
    List.Forall₂ (Renders fileName) k.insts ((lines.map Prod.snd).filter isInstText) := by
  obtain ⟨aliases, found, -, hfound, hinsts⟩ := closeKernel_insts hclose
  rw [hinsts, hopen, List.nil_append]
  exact renders_found hlines hfound order _ _

/-! ### Runs of the parser -/

theorem isHeader_ne_nil {t : Text} (hheader : isHeader t = true) : t ≠ [] := by
  rintro rfl
  exact absurd hheader (by decide)

theorem not_header_of_opening {t : Text} (ht : t.head? = some '\x7b') : isHeader t = false := by
  cases t with
  | nil => cases ht
  | cons c t =>
    obtain rfl := Option.some.inj ht
    rfl

section Runs
variable (order : AliasOrder) (fileName : String)

theorem run_outside {lines : List Text} (hlines : ∀ t ∈ lines, isHeader t.trim = false)
    (st : ParseState) (hin : st.inEntry = false) :
    lines.foldlM (parseLine order fileName) st
      = .ok { st with lineNo := st.lineNo + lines.length } := by
  induction lines generalizing st with
  | nil => rfl
  | cons t lines ih =>
    have hstep : parseLine order fileName st t = .ok { st with lineNo := st.lineNo + 1 } := by
      unfold parseLine
      dsimp only
      rw [hlines t (List.mem_cons_self ..), hin]
      split <;> rfl
    have hnext : ({ st with lineNo := st.lineNo + 1 } : ParseState).inEntry = false := hin
    have hrest := ih (fun u hu => hlines u (List.mem_cons_of_mem _ hu)) _ hnext
    rw [foldlM_cons_ok]
    refine ⟨_, hstep, ?_⟩
    rw [hrest, List.length_cons, Nat.add_assoc, Nat.add_comm 1]

/-- The parser stands in the signature, or in the body, of a kernel that has no instructions yet. -/
structure InKernel (st : ParseState) (inBody : Bool) (kernels : List KernelTokens) : Prop where
  entry : st.inEntry = true
  body : st.inBody = inBody
  open_ : st.cur.insts = []
  before : st.kernels = kernels

theorem run_signature {lines : List Text} (hlines : ∀ t ∈ lines, SignatureLine t) {st : ParseState}
    {kernels : List KernelTokens} (hst : InKernel st false kernels) (hnone : st.bodyLines = []) :
    ∃ st', lines.foldlM (parseLine order fileName) st = .ok st' ∧ InKernel st' false kernels ∧
      st'.bodyLines = [] := by
  induction lines generalizing st with
  | nil => exact ⟨st, rfl, hst, hnone⟩
  | cons t lines ih =>
    have ht := hlines t (List.mem_cons_self ..)
    obtain ⟨mid, hmid, hinmid, hnonemid⟩ : ∃ mid, parseLine order fileName st t = .ok mid ∧
        InKernel mid false kernels ∧ mid.bodyLines = [] := by
      unfold parseLine
      dsimp only
      rw [ht.noHeader, hst.entry, hst.body, beq_false_of_ne ht.noClosing]
      split
      · exact ⟨_, rfl, ⟨rfl, rfl, hst.open_, hst.before⟩, hnone⟩
      · refine ⟨_, rfl, ⟨rfl, ?_, ?_, hst.before⟩, hnone⟩
        · simpa [signatureLine] using ht.noOpening
        · rw [signatureLine_insts]
          exact hst.open_
    obtain ⟨st', hst', hdone⟩ :=
      ih (fun u hu => hlines u (List.mem_cons_of_mem _ hu)) hinmid hnonemid
    exact ⟨st', foldlM_cons_ok.mpr ⟨mid, hmid, hst'⟩, hdone⟩

theorem step_opening {t : Text} (ht : t.trim.head? = some '\x7b') {st : ParseState}
    {kernels : List KernelTokens} (hst : InKernel st false kernels) (hnone : st.bodyLines = []) :
    ∃ st', parseLine order fileName st t = .ok st' ∧ InKernel st' true kernels ∧
      st'.bodyLines = [] := by
  have hne : t.trim ≠ [] := by
    intro hnil
    rw [hnil] at ht
    cases ht
  have hclosing : t.trim ≠ ['\x7d'] := by
    intro h
    rw [h] at ht
    exact absurd ht (by decide)
  unfold parseLine
  dsimp only
  rw [if_neg (by simpa using hne), not_header_of_opening ht, hst.entry, hst.body,
    beq_false_of_ne hclosing]
  refine ⟨_, rfl, ⟨rfl, ?_, ?_, hst.before⟩, hnone⟩
  · simp [signatureLine, ht]
  · rw [signatureLine_insts]
    exact hst.open_

/-- Lines of a body are collected as they come, up to a closing brace. -/
theorem run_body {lines : List Text}
    (hlines : ∀ t ∈ lines, isHeader t.trim = false ∧ t.trim ≠ ['\x7d']) {st : ParseState}
    {kernels : List KernelTokens} (hst : InKernel st true kernels) :
    ∃ st' added, lines.foldlM (parseLine order fileName) st = .ok st' ∧ InKernel st' true kernels ∧
      st'.bodyLines = st.bodyLines ++ added ∧
      added.map Prod.snd = (lines.map Text.trim).filter (!·.isEmpty) := by
  induction lines generalizing st with
  | nil => exact ⟨st, [], rfl, hst, by simp, rfl⟩
  | cons t lines ih =>
    obtain ⟨hheader, hclosing⟩ := hlines t (List.mem_cons_self ..)
    obtain ⟨mid, now, hmid, hinmid, hbody, hnow⟩ : ∃ mid now,
        parseLine order fileName st t = .ok mid ∧ InKernel mid true kernels ∧
        mid.bodyLines = st.bodyLines ++ now ∧
        now.map Prod.snd = [t.trim].filter (!·.isEmpty) := by
      unfold parseLine
      dsimp only
      rw [hheader, hst.entry, hst.body, beq_false_of_ne hclosing]
      split
      · next hnil =>
        refine ⟨_, [], rfl, ⟨rfl, rfl, hst.open_, hst.before⟩, by simp, ?_⟩
        simp [List.isEmpty_iff.mp hnil]
      · next hne =>
        refine ⟨_, [(st.lineNo + 1, t.trim)], rfl, ⟨rfl, rfl, hst.open_, hst.before⟩, rfl, ?_⟩
        rw [List.filter_cons_of_pos (by simpa using hne)]
        rfl
    obtain ⟨st', added, hst', hdone, hbody', hadded⟩ :=
      ih (fun u hu => hlines u (List.mem_cons_of_mem _ hu)) hinmid
    refine ⟨st', now ++ added, foldlM_cons_ok.mpr ⟨mid, hmid, hst'⟩, hdone, ?_, ?_⟩
    · rw [hbody', hbody, List.append_assoc]
    · rw [List.map_append, hnow, hadded, ← List.filter_append]
      rfl

end Runs

theorem step_closing {order : AliasOrder} {fileName : String} {t : Text}
    (ht : t.trim = ['\x7d']) {st : ParseState} {kernels : List KernelTokens}
    (hst : InKernel st true kernels) {k : KernelTokens}
    (hclose : closeKernel order fileName st.cur st.bodyLines = .ok k) :
    parseLine order fileName st t = .ok { st with
      lineNo := st.lineNo + 1, kernels := st.kernels ++ [k], inEntry := false
      inBody := false } := by
  unfold parseLine
  dsimp only
  rw [ht, hst.entry]
  simp only [hclose]
  rfl

/-! ### One definition -/

/-- The lines before the first closing brace. -/
def firstPart (body : List Text) : List Text := body.takeWhile fun t => t.trim != ['\x7d']

/-- The lines from the first closing brace on. -/
def lastPart (body : List Text) : List Text := body.dropWhile fun t => t.trim != ['\x7d']

theorem PlainLine.readable {t : Text} (ht : PlainLine t) (no : Nat) : Readable (no, t.trim) := by
  have hclosing : t.trim ≠ ['\x7d'] := by
    intro h
    exact ht.noClosing (by rw [h]; rfl)
  refine ⟨hclosing, fun scan => ht.scans scan no, fun hinst fileName => ?_⟩
  apply ht.reads
  rw [isInstText, bne_iff_ne.mpr hclosing, Bool.and_true]
  exact hinst

theorem readable_of_opening {t : Text} (ht : t.trim.head? = some '\x7b') (no : Nat) :
    Readable (no, t.trim) := by
  have hbody : (bodyText (no, t.trim)).head? = some '\x7b' :=
    Text.trim_cons_head (Text.cutComment_head ht (by decide)) (by decide)
  have hdirective : isDirective (bodyText (no, t.trim)) = true := by
    rw [isDirective, hbody]
    decide
  have hne : (bodyText (no, t.trim)).isEmpty = false := by
    rw [List.isEmpty_eq_false_iff]
    intro hnil
    rw [hnil] at hbody
    cases hbody
  have hreg : (bodyText (no, t.trim)).startsWith ".reg".toList = false := by
    obtain ⟨rest, hrest⟩ : ∃ rest, bodyText (no, t.trim) = '\x7b' :: rest := by
      cases hcase : bodyText (no, t.trim) with
      | nil =>
        rw [hcase] at hbody
        cases hbody
      | cons c rest =>
        rw [hcase] at hbody
        exact ⟨rest, by rw [Option.some.inj hbody]⟩
    rw [hrest]
    rfl
  constructor
  · intro h
    have h : t.trim = ['\x7d'] := h
    rw [h] at ht
    exact absurd ht (by decide)
  · intro scan
    refine ⟨scan, ?_⟩
    unfold scanLine
    dsimp only
    rw [hne, hreg, hdirective]
    rfl
  · intro hinst
    rw [isInstLine, hdirective] at hinst
    simp at hinst

theorem Balanced.lines {body : List Text} (hbody : Balanced body) :
    ∀ t ∈ body, isHeader t.trim = false ∧
      (t.trim ≠ ['\x7d'] → ∀ no, Readable (no, t.trim)) := by
  induction hbody with
  | nil => simp
  | @line t rest ht _ ih =>
    intro u hu
    rcases List.mem_cons.mp hu with rfl | hu
    · exact ⟨ht.noHeader, fun _ => ht.readable⟩
    · exact ih u hu
  | @block opening closing inner rest hopening _ hclosing _ ihinner ihrest =>
    intro u hu
    simp only [List.mem_cons, List.mem_append] at hu
    rcases hu with rfl | hu | rfl | hu
    · exact ⟨not_header_of_opening hopening, fun _ => readable_of_opening hopening⟩
    · exact ihinner u hu
    · exact ⟨by rw [hclosing]; decide, fun h => absurd hclosing h⟩
    · exact ihrest u hu

/-- A body and its end, read up to the first closing brace. -/
theorem exists_first_closing {e : EntryText} (hform : e.Form) :
    ∃ closing rest, e.body ++ [e.closing] = firstPart e.body ++ closing :: rest ∧
      closing.trim = ['\x7d'] ∧ ∀ t ∈ rest, isHeader t.trim = false := by
  have hsplit : firstPart e.body ++ lastPart e.body = e.body := List.takeWhile_append_dropWhile
  have hclosing : isHeader e.closing.trim = false := by
    rw [hform.closing]
    decide
  cases hlast : lastPart e.body with
  | nil =>
    rw [hlast, List.append_nil] at hsplit
    exact ⟨e.closing, [], by rw [hsplit], hform.closing, by simp⟩
  | cons closing rest =>
    refine ⟨closing, rest ++ [e.closing], ?_, ?_, ?_⟩
    · conv_lhs => rw [← hsplit, hlast]
      simp
    · have hhead := List.head?_dropWhile_not (fun t => t.trim != ['\x7d']) e.body
      rw [← lastPart, hlast] at hhead
      simpa using hhead
    · intro t ht
      rcases List.mem_append.mp ht with ht | ht
      · have hmem : t ∈ e.body := by
          rw [← hsplit, hlast]
          exact List.mem_append_right _ (List.mem_cons_of_mem _ ht)
        exact (hform.body.lines t hmem).1
      · rwa [List.mem_singleton.mp ht]

section Entry
variable (order : AliasOrder) (fileName : String)

/-- From the header to the brace that opens the body. -/
theorem run_head {e : EntryText} (hform : e.Form) (st : ParseState) :
    ∃ st', (e.header :: (e.signature ++ e.opening.toList)).foldlM (parseLine order fileName) st
        = .ok st' ∧ InKernel st' true st.kernels ∧ st'.bodyLines = [] := by
  have hopens := hform.opens
  have hheader : parseLine order fileName st e.header
      = .ok (openKernel { st with lineNo := st.lineNo + 1 } e.header.trim) := by
    have hne := isHeader_ne_nil hform.header
    unfold parseLine
    dsimp only
    rw [if_neg (by simpa using hne), if_pos hform.header]
  split at hopens
  · next hopen =>
    obtain ⟨hsignature, hopening⟩ := hopens
    rw [hsignature, hopening]
    exact ⟨_, foldlM_cons_ok.mpr ⟨_, hheader, rfl⟩, ⟨rfl, hopen, rfl, rfl⟩, rfl⟩
  · next hopen =>
    obtain ⟨hsignature, opening, hopening, hbrace⟩ := hopens
    have hin : InKernel (openKernel { st with lineNo := st.lineNo + 1 } e.header.trim) false
        st.kernels := ⟨rfl, Bool.eq_false_of_not_eq_true hopen, rfl, rfl⟩
    obtain ⟨mid, hmid, hinmid, hnone⟩ := run_signature order fileName hsignature hin rfl
    obtain ⟨st', hst', hin', hnone'⟩ := step_opening order fileName hbrace hinmid hnone
    refine ⟨st', foldlM_cons_ok.mpr ⟨_, hheader, foldlM_append_ok.mpr ⟨mid, hmid, ?_⟩⟩,
      hin', hnone'⟩
    rw [hopening]
    exact foldlM_cons_ok.mpr ⟨st', hst', rfl⟩

theorem filter_isInstText (lines : List Text) :
    ((lines.map Text.trim).filter (!·.isEmpty)).filter isInstText = instLines lines := by
  rw [List.filter_filter, instLines]
  apply List.filter_congr
  intro t _
  cases t with
  | nil => rfl
  | cons c t => simp

/-- The kernel of a definition has the instructions of the lines before the first closing brace. -/
theorem run_entry {e : EntryText} (hform : e.Form) {st : ParseState} (hout : st.inEntry = false) :
    ∃ st' k, e.lines.foldlM (parseLine order fileName) st = .ok st' ∧ st'.inEntry = false ∧
      st'.kernels = st.kernels ++ [k] ∧
      List.Forall₂ (Renders fileName) k.insts (instLines (firstPart e.body)) := by
  obtain ⟨closing, rest, hlines, hclosing, hrest⟩ := exists_first_closing hform
  have hpreamble := run_outside order fileName hform.preamble st hout
  obtain ⟨opened, hopened, hin, hnone⟩ := run_head order fileName hform
    { st with lineNo := st.lineNo + e.preamble.length }
  have hfirst : ∀ t ∈ firstPart e.body, t ∈ e.body ∧ t.trim ≠ ['\x7d'] := by
    intro t ht
    have hne := List.mem_takeWhile_imp ht
    exact ⟨(List.takeWhile_prefix _).subset ht, by simpa using hne⟩
  obtain ⟨collected, added, hcollected, hin', hbody, hadded⟩ := run_body order fileName
    (fun t ht => ⟨(hform.body.lines t (hfirst t ht).1).1, (hfirst t ht).2⟩) hin
  rw [hnone, List.nil_append] at hbody
  have hreadable : ∀ l ∈ collected.bodyLines, Readable l := by
    intro l hl
    have hmem : l.2 ∈ (firstPart e.body).map Text.trim := by
      have h := List.mem_map_of_mem (f := Prod.snd) (hbody ▸ hl)
      rw [hadded] at h
      exact List.mem_of_mem_filter h
    obtain ⟨t, ht, htrim⟩ := List.mem_map.mp hmem
    have hread := (hform.body.lines t (hfirst t ht).1).2 (hfirst t ht).2 l.1
    rwa [htrim] at hread
  obtain ⟨k, hk⟩ := closeKernel_total hreadable order fileName collected.cur
  have hclosed := step_closing hclosing hin' hk
  have hbehind := run_outside order fileName hrest { collected with
    lineNo := collected.lineNo + 1, kernels := collected.kernels ++ [k], inEntry := false
    inBody := false } rfl
  refine ⟨{ collected with
    lineNo := collected.lineNo + 1 + rest.length, kernels := collected.kernels ++ [k]
    inEntry := false, inBody := false }, k, ?_, rfl, congrArg (· ++ [k]) hin'.before, ?_⟩
  · have hall : e.lines = e.preamble ++ ((e.header :: (e.signature ++ e.opening.toList))
        ++ (firstPart e.body ++ closing :: rest)) := by
      rw [← hlines, EntryText.lines]
      simp
    rw [hall, foldlM_append_ok]
    refine ⟨_, hpreamble, foldlM_append_ok.mpr ⟨opened, hopened, ?_⟩⟩
    exact foldlM_append_ok.mpr ⟨collected, hcollected, foldlM_cons_ok.mpr ⟨_, hclosed, hbehind⟩⟩
  · have hrenders := closeKernel_renders hreadable hin'.open_ hk
    rwa [hbody, hadded, filter_isInstText] at hrenders

end Entry

/-! ### All definitions -/

theorem run_entries (order : AliasOrder) (fileName : String) {entries : List EntryText}
    (hform : ∀ e ∈ entries, e.Form) {st : ParseState} (hout : st.inEntry = false) :
    ∃ st' ks, (entries.flatMap EntryText.lines).foldlM (parseLine order fileName) st = .ok st' ∧
      st'.inEntry = false ∧ st'.kernels = st.kernels ++ ks ∧
      List.Forall₂ (fun e k => List.Forall₂ (Renders fileName) k.insts
        (instLines (firstPart e.body))) entries ks := by
  induction entries generalizing st with
  | nil => exact ⟨st, [], rfl, hout, by simp, .nil⟩
  | cons e entries ih =>
    obtain ⟨mid, k, hmid, hmidout, hkernels, hrenders⟩ :=
      run_entry order fileName (hform e (List.mem_cons_self ..)) hout
    obtain ⟨st', ks, hst', hout', hkernels', hrest⟩ :=
      ih (fun e he => hform e (List.mem_cons_of_mem _ he)) hmidout
    refine ⟨st', k :: ks, ?_, hout', ?_, .cons hrenders hrest⟩
    · rw [List.flatMap_cons, foldlM_append_ok]
      exact ⟨mid, hmid, hst'⟩
    · rw [hkernels', hkernels, List.append_assoc]
      rfl

/-- What the parser makes of the text, as far as the first blocks. -/
theorem parse_first_parts (order : AliasOrder) (fileName : String) {text : Text}
    {entries : List EntryText} (hform : TextForm text entries) :
    ∃ ks, parsePtxTextTokens order text fileName = .ok { kernels := ks } ∧
      List.Forall₂ (fun e k => List.Forall₂ (Renders fileName) k.insts
        (instLines (firstPart e.body))) entries ks := by
  obtain ⟨trailer, hlines, htrailer⟩ := hform.lines
  have hinit : ({} : ParseState).inEntry = false := rfl
  obtain ⟨st, ks, hst, hout, hkernels, hrenders⟩ := run_entries order fileName hform.form hinit
  refine ⟨ks, ?_, hrenders⟩
  rw [parsePtxTextTokens, bind_ok, hlines]
  refine ⟨_, foldlM_append_ok.mpr ⟨st, hst, run_outside order fileName htrailer st hout⟩, ?_⟩
  rw [hkernels]
  rfl

/-- The parser yields one kernel for each definition, with the instructions of its body. -/
def BodiesKept (order : AliasOrder) (fileName : String) (text : Text) (entries : List EntryText) :
    Prop :=
  ∃ m, parsePtxTextTokens order text fileName = .ok m ∧
    List.Forall₂ (fun e k => List.Forall₂ (Renders fileName) k.insts (instLines e.body)) entries
      m.kernels

section
variable {fileName : String}

theorem instLines_split (body : List Text) :
    instLines body = instLines (firstPart body) ++ instLines (lastPart body) := by
  rw [instLines, instLines, instLines, ← List.filter_append, ← List.map_append, firstPart, lastPart,
    List.takeWhile_append_dropWhile]

/-- The first part of a body renders the whole body when nothing renders the rest. -/
theorem renders_body_iff {k : KernelTokens} {body : List Text}
    (hfirst : List.Forall₂ (Renders fileName) k.insts (instLines (firstPart body))) :
    List.Forall₂ (Renders fileName) k.insts (instLines body) ↔
      ∀ t ∈ lastPart body, isInstText t.trim = false := by
  have hlast :
      (∀ t ∈ lastPart body, isInstText t.trim = false) ↔ instLines (lastPart body) = [] := by
    simp [instLines, List.filter_eq_nil_iff]
  rw [hlast, instLines_split]
  constructor
  · intro hall
    have hlength := hfirst.length_eq.symm.trans hall.length_eq
    rw [List.length_append] at hlength
    exact List.eq_nil_of_length_eq_zero (by omega)
  · intro hnil
    rwa [hnil, List.append_nil]

end

theorem forall₂_iff_forall {α β : Type*} {R S : α → β → Prop} {p : α → Prop} {as : List α}
    {bs : List β} (hR : List.Forall₂ R as bs) (hiff : ∀ a b, R a b → (S a b ↔ p a)) :
    List.Forall₂ S as bs ↔ ∀ a ∈ as, p a := by
  induction hR with
  | nil => simp
  | @cons a b as bs hab _ ih => rw [List.forall₂_cons, List.forall_mem_cons, hiff a b hab, ih]

/-- **Kernel bodies.** They are kept exactly when no body has an instruction behind the end of its
first scope block. -/
theorem bodies_kept_iff (order : AliasOrder) (fileName : String) {text : Text}
    {entries : List EntryText} (hform : TextForm text entries) :
    BodiesKept order fileName text entries ↔
      ∀ e ∈ entries, ∀ t ∈ lastPart e.body, isInstText t.trim = false := by
  obtain ⟨ks, hparse, hfirst⟩ := parse_first_parts order fileName hform
  refine Iff.trans ?_ (forall₂_iff_forall hfirst fun e k hek => renders_body_iff hek)
  constructor
  · rintro ⟨m, hm, hall⟩
    rw [hparse, Except.ok.injEq] at hm
    subst hm
    exact hall
  · exact fun hall => ⟨_, hparse, hall⟩

def usualEntry : EntryText where
  preamble := [".version 6.4".toList]
  header := ".visible .entry k(".toList
  signature := [".param .u64 a".toList, ")".toList]
  opening := some ['\x7b']
  body := ["L:".toList, ['\x7b'], "add.s32 %r1, %r2, %r3;".toList, "ret;".toList, ['\x7d']]
  closing := ['\x7d']

/-- A block that ends before the last instruction. -/
def blockEntry : EntryText :=
  { usualEntry with body := [['\x7b'], "add.s32 %r1, %r2, %r3;".toList, ['\x7d'], "ret;".toList] }

def EntryText.text (e : EntryText) : Text := e.lines.flatMap fun t => t ++ ['\n']

theorem plain_ret : PlainLine "ret;".toList where
  noHeader := by decide
  noOpening := by decide
  noClosing := by decide
  scans := fun _ _ => ⟨_, rfl⟩
  reads := fun _ _ _ => ⟨_, rfl⟩

theorem plain_label : PlainLine "L:".toList where
  noHeader := by decide
  noOpening := by decide
  noClosing := by decide
  scans := fun _ _ => ⟨_, rfl⟩
  reads := fun h => absurd h (by decide)

theorem plain_add : PlainLine "add.s32 %r1, %r2, %r3;".toList where
  noHeader := by decide
  noOpening := by decide
  noClosing := by decide
  scans := fun _ _ => ⟨_, rfl⟩
  reads := fun _ _ _ => ⟨_, rfl⟩

/-- An entry that differs from the usual one in its body. -/
theorem usual_form {body : List Text} (hbody : Balanced body) :
    EntryText.Form { usualEntry with body := body } where
  preamble := (by decide : ∀ t ∈ usualEntry.preamble, isHeader t.trim = false)
  header := (by decide : isHeader usualEntry.header.trim = true)
  opens := by
    have hopens : Text.contains (headerRest usualEntry.header.trim) ['\x7b'] = false := by decide
    rw [if_neg (by rw [hopens]; decide)]
    refine ⟨?_, _, rfl, by decide⟩
    intro t ht
    simp only [usualEntry, List.mem_cons, List.not_mem_nil, or_false] at ht
    rcases ht with rfl | rfl
    · exact ⟨by decide, by decide, by decide⟩
    · exact ⟨by decide, by decide, by decide⟩
  body := hbody
  closing := (by decide : usualEntry.closing.trim = ['\x7d'])

/-- The block of a body that ends with it. -/
theorem bodies_kept_iff_block : BodiesKept .inserted "" usualEntry.text [usualEntry] := by
  have hbody : Balanced usualEntry.body :=
    .line plain_label (.block rfl (.line plain_add (.line plain_ret .nil)) rfl .nil)
  have hform : TextForm usualEntry.text [usualEntry] :=
    ⟨fun e he => List.mem_singleton.mp he ▸ usual_form hbody, [], by rfl, by simp⟩
  exact (bodies_kept_iff .inserted "" hform).mpr (by decide)

/-- The return behind the block is lost. -/
theorem block_ends_kernel :
    TextForm blockEntry.text [blockEntry] ∧
      ¬BodiesKept .inserted "" blockEntry.text [blockEntry] := by
  have hbody : Balanced blockEntry.body :=
    .block rfl (.line plain_add .nil) rfl (.line plain_ret .nil)
  have hform : TextForm blockEntry.text [blockEntry] :=
    ⟨fun e he => List.mem_singleton.mp he ▸ usual_form hbody, [], by rfl, by simp⟩
  refine ⟨hform, ?_⟩
  rintro ⟨m, hm, hall⟩
  have hkept : (parsePtxTextTokens .inserted blockEntry.text "").toOption.map
      (fun m => m.kernels.map fun k => k.insts.length) = some [1] := by rfl
  obtain ⟨k, ks, hrenders, hrest, hks⟩ := List.forall₂_cons_left_iff.mp hall
  rw [hm] at hkept
  have hone : k.insts.length = 1 := by
    simp only [Except.toOption, Option.map_some, Option.some.injEq, hks, List.map_cons,
      List.cons.injEq] at hkept
    exact hkept.1
  have htwo : (instLines blockEntry.body).length = 2 := by rfl
  have hlength := hrenders.length_eq
  omega

end ProtoGpu
