import ProtoGpu.Lib.Sigil
import ProtoGpu.Proof.AliasTable

/-!
# Named registers

The names of a kernel's registers are replaced in its operands one after the other, as texts, in the
order of a hash map. A name is also replaced where it begins a longer one, so what an operand
becomes depends on the order as soon as one name begins another. The test for the stack pointer is a
search for its alias, and that may begin another alias.
-/

namespace ProtoGpu

open Throwing

open Json (isSpace isDigit)
open Sigil (tails mapTails)

/-- A character of an identifier behind its first. -/
def isFollowSym (c : Char) : Bool := c.isAlphanum || c == '_' || c == '$'

/-! ### Replacing a name -/

/-- The tail `seg` behind a percent sign, with the name in front replaced. -/
def replaceTail (kv : Text × Text) (seg : Text) : Text :=
  if kv.1.tail.isPrefixOf seg then kv.2.tail ++ seg.drop kv.1.tail.length else seg

theorem replaceTail_append (kv : Text × Text) (rest : Text) :
    replaceTail kv (kv.1.tail ++ rest) = kv.2.tail ++ rest := by
  rw [replaceTail, if_pos (List.isPrefixOf_iff_prefix.mpr (List.prefix_append ..)), List.drop_left]

theorem replaceTail_of_not (kv : Text × Text) {seg : Text} (hno : ¬kv.1.tail <+: seg) :
    replaceTail kv seg = seg := by
  rw [replaceTail, if_neg (by rwa [List.isPrefixOf_iff_prefix])]

theorem replaceFrom_lead {w a : Text} (ha : '%' ∉ a) (dst s : Text) :
    Text.replaceFrom ('%' :: w) dst 0 (a ++ s) = a ++ Text.replaceFrom ('%' :: w) dst 0 s := by
  induction a with
  | nil => rfl
  | cons ch a ih =>
    rw [List.mem_cons, not_or] at ha
    have hno : List.isPrefixOf ('%' :: w) (ch :: (a ++ s)) = false := by
      simp [List.isPrefixOf, ha.1]
    rw [List.cons_append, Text.replaceFrom, hno, ih ha.2]
    rfl

/-- A name with one percent sign is replaced tail by tail. -/
theorem replace_tails {w a : Text} (hw : '%' ∉ w) (tok : Text) :
    Text.replace tok ('%' :: w) ('%' :: a)
      = mapTails '%' (replaceTail ('%' :: w, '%' :: a)) tok := by
  obtain ⟨lead, segs, rfl, hlead, hsegs⟩ := Sigil.exists_join '%' tok
  rw [Sigil.mapTails_join _ hlead hsegs, Text.replace]
  induction segs generalizing lead with
  | nil =>
    have hrest := replaceFrom_lead (w := w) hlead ('%' :: a) []
    simpa [Sigil.join, Text.replaceFrom] using hrest
  | cons s segs ih =>
    rw [List.forall_mem_cons] at hsegs
    rw [Sigil.join_cons, replaceFrom_lead hlead, List.map_cons, Sigil.join_cons, Text.replaceFrom]
    by_cases hpre : w <+: s
    · obtain ⟨rest, rfl⟩ := hpre
      have hhere : List.isPrefixOf ('%' :: w) ('%' :: Sigil.join '%' (w ++ rest) segs) = true := by
        rw [List.isPrefixOf_iff_prefix, List.cons_prefix_cons]
        exact ⟨rfl, (Sigil.prefix_join_iff hw).mpr (List.prefix_append w rest)⟩
      have hrest : '%' ∉ rest := fun h => hsegs.1 (List.mem_append_right _ h)
      have hdrop : (Sigil.join '%' (w ++ rest) segs).drop w.length = Sigil.join '%' rest segs := by
        rw [Sigil.join, List.append_assoc, List.drop_left]
        rfl
      rw [if_pos hhere, Text.replaceFrom_skip]
      simp only [List.length_cons, Nat.add_sub_cancel, hdrop, ih rest hrest hsegs.2]
      rw [show replaceTail ('%' :: w, '%' :: a) (w ++ rest) = a ++ rest from
        replaceTail_append ('%' :: w, '%' :: a) rest]
      simp [Sigil.join]
    · have hno : List.isPrefixOf ('%' :: w) ('%' :: Sigil.join '%' s segs) = false := by
        rw [Bool.eq_false_iff]
        intro hhere
        rw [List.isPrefixOf_iff_prefix, List.cons_prefix_cons] at hhere
        exact hpre ((Sigil.prefix_join_iff hw).mp hhere.2)
      rw [hno, if_neg Bool.false_ne_true, ih s hsegs.1 hsegs.2,
        replaceTail_of_not ('%' :: w, '%' :: a) hpre]

/-! ### Replacing all names -/

/-- The name has its percent sign in front. A text with another is a list of names that no blank
separates. -/
def PlainName (name : Text) : Prop :=
  name.tail ≠ [] ∧ ('%' ∈ name.tail → ',' ∈ name.tail ∨ ';' ∈ name.tail)

/-- What the renaming relies on of a name and its alias. -/
structure Renames (kv : Text × Text) : Prop where
  plain : PlainName kv.1
  sigil : kv.1 = '%' :: kv.1.tail
  named : kv.1.tail.head? ≠ some 'r'
  numbered : ∃ b : RegBank, ∃ n, kv.2 = b.aliasFor n

/-- An operand, which has no separator. -/
def IsOperand (tok : Text) : Prop := ',' ∉ tok ∧ ';' ∉ tok

theorem mem_aliasFor {b : RegBank} {n : Nat} {c : Char} (hc : c ∈ (b.aliasFor n).tail) :
    c = 'r' ∨ c = 'd' ∨ c.isDigit = true := by
  have hcases : c = 'r' ∨ c = 'd' ∨ c ∈ Text.ofNat n := by
    cases b with
    | narrow =>
      rcases List.mem_cons.mp (show c ∈ 'r' :: Text.ofNat n from hc) with h | h
      · exact .inl h
      · exact .inr (.inr h)
    | wide =>
      rcases List.mem_cons.mp (show c ∈ 'r' :: 'd' :: Text.ofNat n from hc) with h | h
      · exact .inl h
      · rcases List.mem_cons.mp h with h | h
        · exact .inr (.inl h)
        · exact .inr (.inr h)
  refine hcases.imp_right (Or.imp_right fun hmem => ?_)
  exact Nat.isDigit_of_mem_toDigits (by decide) (by decide) hmem

theorem aliasFor_sigil (b : RegBank) (n : Nat) :
    b.aliasFor n = '%' :: (b.aliasFor n).tail ∧ (b.aliasFor n).tail.head? = some 'r' := by
  cases b <;> exact ⟨rfl, rfl⟩

namespace Renames
variable {kv : Text × Text} (hkv : Renames kv)
include hkv

theorem alias_sigil : kv.2 = '%' :: kv.2.tail := by
  obtain ⟨b, n, halias⟩ := hkv.numbered
  rw [halias]
  exact (aliasFor_sigil b n).1

theorem alias_head : kv.2.tail.head? = some 'r' := by
  obtain ⟨b, n, halias⟩ := hkv.numbered
  rw [halias]
  exact (aliasFor_sigil b n).2

theorem not_mem_alias {c : Char} (hr : c ≠ 'r') (hd : c ≠ 'd') (hdigit : c.isDigit = false) :
    c ∉ kv.2.tail := by
  obtain ⟨b, n, halias⟩ := hkv.numbered
  rw [halias]
  intro hmem
  rcases mem_aliasFor hmem with h | h | h
  · exact hr h
  · exact hd h
  · rw [hdigit] at h
    cases h

theorem percent_not_mem_replaceTail (seg : Text) (hseg : '%' ∉ seg) :
    '%' ∉ replaceTail kv seg := by
  unfold replaceTail
  split
  · intro hmem
    rcases List.mem_append.mp hmem with hmem | hmem
    · exact hkv.not_mem_alias (by decide) (by decide) (by decide) hmem
    · exact hseg (List.mem_of_mem_drop hmem)
  · exact hseg

theorem replace_eq {tok : Text} (htok : IsOperand tok) :
    Text.replace tok kv.1 kv.2 = mapTails '%' (replaceTail kv) tok := by
  by_cases hone : '%' ∈ kv.1.tail
  · have habsent : Text.replace tok kv.1 kv.2 = tok := by
      rcases hkv.plain.2 hone with hcomma | hsemi
      · exact Text.replaceFrom_absent (List.mem_of_mem_tail hcomma) htok.1
      · exact Text.replaceFrom_absent (List.mem_of_mem_tail hsemi) htok.2
    have hsame : mapTails '%' (replaceTail kv) tok = mapTails '%' (fun seg => seg) tok := by
      rw [Sigil.mapTails_eq_iff hkv.percent_not_mem_replaceTail fun _ hseg => hseg]
      intro seg hseg
      exact replaceTail_of_not kv fun hpre => Sigil.not_mem_of_mem_tails hseg (hpre.subset hone)
    rw [habsent, hsame, Sigil.mapTails_id]
  · have htails := replace_tails (a := kv.2.tail) hone tok
    rw [← hkv.sigil, ← hkv.alias_sigil] at htails
    exact htails

theorem isOperand_replace {tok : Text} (htok : IsOperand tok) :
    IsOperand (Text.replace tok kv.1 kv.2) := by
  have hsep {c : Char} (hc : c ≠ '%' ∧ c ≠ 'r' ∧ c ≠ 'd' ∧ c.isDigit = false) : c ∉ kv.2 := by
    rw [hkv.alias_sigil, List.mem_cons, not_or]
    exact ⟨hc.1, hkv.not_mem_alias hc.2.1 hc.2.2.1 hc.2.2.2⟩
  refine ⟨fun hmem => ?_, fun hmem => ?_⟩
  · rcases Text.mem_replaceFrom hmem with h | h
    · exact htok.1 h
    · exact hsep (by decide) h
  · rcases Text.mem_replaceFrom hmem with h | h
    · exact htok.2 h
    · exact hsep (by decide) h

/-- A tail that begins with an alias has no name in front. -/
theorem replaceTail_renamed {seg : Text} (hseg : seg.head? = some 'r') :
    replaceTail kv seg = seg := by
  apply replaceTail_of_not
  intro hpre
  have hhead : kv.1.tail.head? = seg.head? := by
    obtain ⟨rest, rfl⟩ := hpre
    obtain ⟨c, w, hw⟩ := List.exists_cons_of_ne_nil hkv.plain.1
    rw [hw]
    rfl
  exact hkv.named (hhead.trans hseg)

end Renames

section Table
variable {table : List (Text × Text)} {tok seg : Text}

theorem rewriteNamedRegs_eq (htable : ∀ kv ∈ table, Renames kv) (htok : IsOperand tok) :
    rewriteNamedRegs table tok
      = mapTails '%' (fun seg => table.foldl (fun seg kv => replaceTail kv seg) seg) tok := by
  induction table generalizing tok with
  | nil => exact Sigil.mapTails_id.symm
  | cons kv table ih =>
    rw [List.forall_mem_cons] at htable
    have hrest := ih htable.2 (htable.1.isOperand_replace htok)
    rw [htable.1.replace_eq htok, Sigil.mapTails_mapTails htable.1.percent_not_mem_replaceTail]
      at hrest
    rw [rewriteNamedRegs, List.foldl_cons, htable.1.replace_eq htok]
    exact hrest

theorem foldl_renamed (htable : ∀ kv ∈ table, Renames kv) (hseg : seg.head? = some 'r') :
    table.foldl (fun seg kv => replaceTail kv seg) seg = seg := by
  induction table with
  | nil => rfl
  | cons kv table ih =>
    rw [List.forall_mem_cons] at htable
    rw [List.foldl_cons, htable.1.replaceTail_renamed hseg, ih htable.2]

/-- The first name visited that begins the tail is the one that is replaced. -/
theorem foldl_replaceTail (htable : ∀ kv ∈ table, Renames kv) (seg : Text) :
    table.foldl (fun seg kv => replaceTail kv seg) seg
      = match table.find? fun kv => kv.1.tail.isPrefixOf seg with
        | some kv => replaceTail kv seg
        | none => seg := by
  induction table with
  | nil => rfl
  | cons kv table ih =>
    rw [List.forall_mem_cons] at htable
    rw [List.foldl_cons, List.find?_cons]
    cases hpre : kv.1.tail.isPrefixOf seg with
    | true =>
      apply foldl_renamed htable.2
      rw [replaceTail, if_pos hpre]
      have hhead := htable.1.alias_head
      cases halias : kv.2.tail with
      | nil => simp [halias] at hhead
      | cons c a => simpa [halias] using hhead
    | false =>
      rw [replaceTail_of_not kv (by rwa [← List.isPrefixOf_iff_prefix, Bool.not_eq_true])]
      exact ih htable.2

end Table

/-! ### The renaming that is meant -/

/-- The tail with the identifier in front renamed, if that is a name of the table. -/
def ownTail (table : List (Text × Text)) (seg : Text) : Text :=
  match table.lookup ('%' :: seg.takeWhile isFollowSym) with
  | some own => own.tail ++ seg.dropWhile isFollowSym
  | none => seg

/-- The operand with each of its identifiers that is a name renamed to the name's own alias. -/
def substNamed (table : List (Text × Text)) (tok : Text) : Text := mapTails '%' (ownTail table) tok

/-- The order that meets one entry first. -/
def AliasOrder.first (kv : Text × Text) : AliasOrder where
  visit aliases := if kv ∈ aliases then kv :: aliases.erase kv else aliases
  perm aliases := by
    split
    · next hmem => exact (List.perm_cons_erase hmem).symm
    · exact .refl _

theorem lookup_of_mem {table : List (Text × Text)} (hnodup : (table.map Prod.fst).Nodup)
    {kv : Text × Text} (hkv : kv ∈ table) : table.lookup kv.1 = some kv.2 := by
  induction table with
  | nil => cases hkv
  | cons first table ih =>
    rw [List.map_cons, List.nodup_cons] at hnodup
    rcases List.mem_cons.mp hkv with rfl | hkv
    · rw [List.lookup_cons, beq_self_eq_true]
    · have hne : kv.1 ≠ first.1 := by
        intro heq
        exact hnodup.1 (heq ▸ List.mem_map_of_mem hkv)
      rw [List.lookup_cons, beq_false_of_ne hne]
      exact ih hnodup.2 hkv

section Meant
variable {table : List (Text × Text)} {tok seg : Text}

theorem mem_of_lookup {name own : Text} (hlookup : table.lookup name = some own) :
    (name, own) ∈ table := by
  obtain ⟨before, after, rfl, -⟩ := List.lookup_eq_some_iff.mp hlookup
  simp

theorem ownTail_eq {own : Text}
    (hlookup : table.lookup ('%' :: seg.takeWhile isFollowSym) = some own) :
    replaceTail ('%' :: seg.takeWhile isFollowSym, own) seg = ownTail table seg := by
  have happend := replaceTail_append ('%' :: seg.takeWhile isFollowSym, own)
    (seg.dropWhile isFollowSym)
  rw [List.tail_cons, List.takeWhile_append_dropWhile] at happend
  rw [happend, ownTail, hlookup]

theorem percent_not_mem_ownTail (htable : ∀ kv ∈ table, Renames kv) (seg : Text)
    (hseg : '%' ∉ seg) : '%' ∉ ownTail table seg := by
  cases hlookup : table.lookup ('%' :: seg.takeWhile isFollowSym) with
  | none => rwa [ownTail, hlookup]
  | some own =>
    rw [← ownTail_eq hlookup]
    exact (htable _ (mem_of_lookup hlookup)).percent_not_mem_replaceTail seg hseg

/-- **Renaming in every order.** An operand is renamed as meant whatever the order exactly when no
name begins one of its identifiers but to the same effect. -/
theorem renamed_iff (htable : ∀ kv ∈ table, Renames kv) (htok : IsOperand tok) :
    (∀ order : AliasOrder, rewriteNamedRegs (order.visit table) tok = substNamed table tok) ↔
      ∀ seg ∈ tails '%' tok, ∀ kv ∈ table, kv.1.tail <+: seg →
        replaceTail kv seg = ownTail table seg := by
  have hvisit (order : AliasOrder) : ∀ kv ∈ order.visit table, Renames kv :=
    fun kv hkv => htable kv ((order.perm table).mem_iff.mp hkv)
  have hpercent (order : AliasOrder) (seg : Text) (hseg : '%' ∉ seg) :
      '%' ∉ (order.visit table).foldl (fun seg kv => replaceTail kv seg) seg := by
    rw [foldl_replaceTail (hvisit order)]
    split
    · next kv hfind =>
      exact (hvisit order kv (List.mem_of_find?_eq_some hfind)).percent_not_mem_replaceTail seg hseg
    · exact hseg
  have horder (order : AliasOrder) :
      rewriteNamedRegs (order.visit table) tok = substNamed table tok ↔
        ∀ seg ∈ tails '%' tok,
          (order.visit table).foldl (fun seg kv => replaceTail kv seg) seg = ownTail table seg := by
    rw [rewriteNamedRegs_eq (hvisit order) htok, substNamed]
    exact Sigil.mapTails_eq_iff (hpercent order) (percent_not_mem_ownTail htable)
  constructor
  · intro hall seg hseg kv hkv hpre
    have hfirst := (horder (.first kv)).mp (hall _) seg hseg
    rw [foldl_replaceTail (hvisit _)] at hfirst
    have hvisited : (AliasOrder.first kv).visit table = kv :: table.erase kv := if_pos hkv
    rw [hvisited, List.find?_cons, List.isPrefixOf_iff_prefix.mpr hpre] at hfirst
    exact hfirst
  · intro hapart order
    rw [horder]
    intro seg hseg
    rw [foldl_replaceTail (hvisit order)]
    split
    · next kv hfind =>
      have hkv := (order.perm table).mem_iff.mp (List.mem_of_find?_eq_some hfind)
      exact hapart seg hseg kv hkv
        (List.isPrefixOf_iff_prefix.mp (by simpa using List.find?_some hfind))
    · next hnone =>
      -- a name of the table would have been found
      cases hlookup : table.lookup ('%' :: seg.takeWhile isFollowSym) with
      | none => rw [ownTail, hlookup]
      | some own =>
        have hmem := (order.perm table).mem_iff.mpr (mem_of_lookup hlookup)
        have hno := List.find?_eq_none.mp hnone _ hmem
        exact absurd (List.isPrefixOf_iff_prefix.mpr (List.takeWhile_prefix _)) hno

end Meant

/-! ### Operands of a body -/

theorem mem_of_mem_trim {c : Char} {s : Text} (hc : c ∈ s.trim) : c ∈ s := by
  obtain ⟨left, right, hs, -, -⟩ := s.trim_margins
  rw [hs]
  exact List.mem_append_right _ (List.mem_append_left _ hc)

theorem IsOperand.trim {s : Text} (hs : IsOperand s) : IsOperand s.trim :=
  ⟨fun h => hs.1 (mem_of_mem_trim h), fun h => hs.2 (mem_of_mem_trim h)⟩

theorem isOperand_nil : IsOperand [] := ⟨List.not_mem_nil, List.not_mem_nil⟩

theorem operandTokensFrom_isOperand (rest : Text) {cur : Text} (hcur : IsOperand cur) :
    ∀ tok ∈ operandTokensFrom cur rest, IsOperand tok := by
  induction rest generalizing cur with
  | nil =>
    rw [operandTokensFrom]
    split
    · simp
    · simpa using hcur.trim
  | cons ch rest ih =>
    rw [operandTokensFrom]
    split
    · split
      · exact ih isOperand_nil
      · exact List.forall_mem_cons.mpr ⟨hcur.trim, ih isOperand_nil⟩
    · next hsep =>
      simp only [Bool.or_eq_true, beq_iff_eq, not_or] at hsep
      apply ih
      refine ⟨fun h => ?_, fun h => ?_⟩
      · rcases List.mem_append.mp h with h | h
        · exact hcur.1 h
        · exact hsep.1 (List.mem_singleton.mp h).symm
      · rcases List.mem_append.mp h with h | h
        · exact hcur.2 h
        · exact hsep.2 (List.mem_singleton.mp h).symm

theorem tokenizeGuarded_isOperand {inst : TokenizedPtxInst} (line : Text)
    (hinst : ∀ tok ∈ inst.operandTokens, IsOperand tok) :
    ∀ tok ∈ (tokenizeGuarded inst line).operandTokens, IsOperand tok := by
  unfold tokenizeGuarded
  split
  · exact hinst
  · dsimp only
    split
    · exact hinst
    · exact operandTokensFrom_isOperand _ isOperand_nil

theorem bodyInst_isOperand {fileName : String} {line : Nat × Text} {inst : TokenizedPtxInst}
    (hinst : bodyInst fileName line = .ok (some inst)) :
    ∀ tok ∈ inst.operandTokens, IsOperand tok := by
  unfold bodyInst at hinst
  split at hinst
  · obtain ⟨got, htok, hgot⟩ := bind_ok.mp hinst
    have hsome : got = inst := by
      split at hgot
      · cases hgot
      · cases hgot
        rfl
    subst hsome
    unfold tokenizeInstLine at htok
    dsimp only at htok
    split at htok
    · cases htok
      simp
    · obtain ⟨guarded, -, hdone⟩ := bind_ok.mp htok
      cases hdone
      exact tokenizeGuarded_isOperand _ (by simp)
  · cases hinst

/-! ### The stack pointer -/

/-- The register an address operand begins with. -/
def addressBase (tok : Text) : Option Text :=
  match (tok.dropWhile (· != '[')).tail.dropWhile isSpace with
  | '%' :: rest => some ('%' :: rest.takeWhile isFollowSym)
  | _ => none

/-- An operand of the instruction is an address based at the stack pointer. -/
def TokenizedPtxInst.IsStackAccess (inst : TokenizedPtxInst) : Prop :=
  ∃ tok ∈ inst.operandTokens, addressBase tok = some "%SP".toList

/-- A load or store without a space. -/
def TokenizedPtxInst.isGeneric (inst : TokenizedPtxInst) : Bool :=
  (inst.ptxOpcode == "ld".toList || inst.ptxOpcode == "st".toList) && inst.mods.space == ""

theorem resolveBranch_mods (labelToPc : List (Text × Nat)) (inst : TokenizedPtxInst) :
    (resolveBranch labelToPc inst).mods = inst.mods := by
  unfold resolveBranch
  split
  · split
    · split <;> rfl
    · rfl
  · rfl

theorem finishInst_space {order : AliasOrder} {labelToPc : List (Text × Nat)}
    {table : List (Text × Text)} {inst : TokenizedPtxInst} (hgeneric : inst.isGeneric = true) :
    (finishInst order labelToPc table inst).mods.space = "local" ↔
      ∃ sp, table.lookup "%SP".toList = some sp ∧ ∃ tok ∈ inst.operandTokens,
        Text.contains (rewriteNamedRegs (order.visit table) tok) ['['] = true ∧
          Text.contains (rewriteNamedRegs (order.visit table) tok) sp = true := by
  unfold TokenizedPtxInst.isGeneric at hgeneric
  have hspace : inst.mods.space ≠ "local" := by
    rw [Bool.and_eq_true, beq_iff_eq] at hgeneric
    rw [hgeneric.2]
    decide
  unfold finishInst
  rw [resolveBranch_mods, markLocal]
  dsimp only
  rw [if_pos hgeneric]
  cases table.lookup "%SP".toList with
  | none => simp [hspace]
  | some sp =>
    dsimp only
    split
    · next hany => simpa using hany
    · next hany => simpa [hspace] using hany

theorem addressBase_eq {tok w : Text} (hbase : addressBase tok = some ('%' :: w)) :
    '[' ∈ tok ∧ ∃ seg ∈ tails '%' tok, seg.takeWhile isFollowSym = w := by
  unfold addressBase at hbase
  split at hbase
  · next rest hinner =>
    have hw : rest.takeWhile isFollowSym = w := by simpa using hbase
    have hopen : '[' ∈ tok := by
      by_contra hno
      have hnil : tok.dropWhile (· != '[') = [] := by
        rw [List.dropWhile_eq_nil_iff]
        intro c hc
        rw [bne_iff_ne]
        rintro rfl
        exact hno hc
      simp [hnil] at hinner
    have hsuffix : '%' :: rest <:+ tok := by
      rw [← hinner]
      exact (List.dropWhile_suffix _).trans ((List.tail_suffix _).trans (List.dropWhile_suffix _))
    obtain ⟨pre, rfl⟩ := hsuffix
    obtain ⟨seg, hseg, segs, rfl⟩ := Sigil.exists_tail (c := '%') pre rest
    exact ⟨hopen, seg, hseg, by rw [← hw, Sigil.takeWhile_join (by decide)]⟩
  · cases hbase

section Stack
variable {table : List (Text × Text)} {tok : Text}

theorem bracket_mem_ownTail (htable : ∀ kv ∈ table, Renames kv) (seg : Text) :
    '[' ∈ ownTail table seg ↔ '[' ∈ seg := by
  cases hlookup : table.lookup ('%' :: seg.takeWhile isFollowSym) with
  | none => rw [ownTail, hlookup]
  | some own =>
    have halias := (htable _ (mem_of_lookup hlookup)).not_mem_alias (c := '[') (by decide)
      (by decide) (by decide)
    have hword : '[' ∉ seg.takeWhile isFollowSym := by
      intro hmem
      exact absurd (List.mem_takeWhile_imp hmem) (by decide)
    rw [ownTail, hlookup, List.mem_append]
    conv_rhs =>
      rw [← List.takeWhile_append_dropWhile (p := isFollowSym) (l := seg), List.mem_append]
    simp only [halias, hword, false_or]

theorem contains_substNamed (htable : ∀ kv ∈ table, Renames kv) {kv : Text × Text}
    (hkv : kv ∈ table) :
    Text.contains (substNamed table tok) ['['] = true ∧
        Text.contains (substNamed table tok) kv.2 = true ↔
      '[' ∈ tok ∧ ∃ seg ∈ tails '%' tok, kv.2.tail <+: ownTail table seg := by
  have hopen : Text.contains (substNamed table tok) ['['] = true ↔ '[' ∈ tok := by
    rw [Text.contains_iff, ← Sigil.mem_mapTails_iff (bracket_mem_ownTail htable)]
    constructor
    · rintro ⟨pre, post, hsplit⟩
      rw [substNamed] at hsplit
      rw [hsplit]
      simp
    · intro hmem
      obtain ⟨pre, post, hsplit⟩ := List.append_of_mem hmem
      exact ⟨pre, post, hsplit⟩
  have hsp : Text.contains (substNamed table tok) kv.2 = true ↔
      ∃ seg ∈ tails '%' tok, kv.2.tail <+: ownTail table seg := by
    have hpercent : '%' ∉ kv.2.tail :=
      (htable kv hkv).not_mem_alias (by decide) (by decide) (by decide)
    rw [Text.contains_iff, (htable kv hkv).alias_sigil, Sigil.infix_iff hpercent, substNamed,
      Sigil.tails_mapTails (percent_not_mem_ownTail htable)]
    simp
  rw [hopen, hsp]

theorem exists_own_of_stack {inst : TokenizedPtxInst} {sp : Text}
    (hsp : table.lookup "%SP".toList = some sp) (hstack : inst.IsStackAccess) :
    ∃ tok ∈ inst.operandTokens, '[' ∈ tok ∧ ∃ seg ∈ tails '%' tok,
      sp.tail <+: ownTail table seg := by
  obtain ⟨tok, htok, hbase⟩ := hstack
  obtain ⟨hopen, seg, hseg, hword⟩ := addressBase_eq (w := "SP".toList) hbase
  refine ⟨tok, htok, hopen, seg, hseg, ?_⟩
  rw [ownTail, hword, show table.lookup ('%' :: "SP".toList) = some sp from hsp]
  exact List.prefix_append ..

/-- An access whose operands are renamed as meant is marked rightly when the stack pointer has an
alias where it is needed, and nothing else in an address begins with that alias. -/
theorem marked_iff (htable : ∀ kv ∈ table, Renames kv) {order : AliasOrder}
    {labelToPc : List (Text × Nat)} {inst : TokenizedPtxInst} (hgeneric : inst.isGeneric = true)
    (hrenamed : ∀ tok ∈ inst.operandTokens,
      rewriteNamedRegs (order.visit table) tok = substNamed table tok) :
    ((finishInst order labelToPc table inst).mods.space = "local" ↔ inst.IsStackAccess) ↔
      (inst.IsStackAccess → (table.lookup "%SP".toList).isSome = true) ∧
        ∀ sp, table.lookup "%SP".toList = some sp → ∀ tok ∈ inst.operandTokens, '[' ∈ tok →
          ∀ seg ∈ tails '%' tok, sp.tail <+: ownTail table seg → inst.IsStackAccess := by
  have hmarked : (finishInst order labelToPc table inst).mods.space = "local" ↔
      ∃ sp, table.lookup "%SP".toList = some sp ∧ ∃ tok ∈ inst.operandTokens,
        '[' ∈ tok ∧ ∃ seg ∈ tails '%' tok, sp.tail <+: ownTail table seg := by
    rw [finishInst_space hgeneric]
    refine exists_congr fun sp => and_congr_right fun hsp => exists_congr fun tok =>
      and_congr_right fun htok => ?_
    rw [hrenamed tok htok]
    exact contains_substNamed htable (mem_of_lookup hsp)
  rw [hmarked]
  constructor
  · intro hiff
    refine ⟨fun hstack => ?_, fun sp hsp tok htok hopen seg hseg hpre => ?_⟩
    · obtain ⟨sp, hsp, -⟩ := hiff.mpr hstack
      rw [hsp]
      rfl
    · exact hiff.mp ⟨sp, hsp, tok, htok, hopen, seg, hseg, hpre⟩
  · rintro ⟨hsome, honly⟩
    constructor
    · rintro ⟨sp, hsp, tok, htok, hopen, seg, hseg, hpre⟩
      exact honly sp hsp tok htok hopen seg hseg hpre
    · intro hstack
      obtain ⟨sp, hsp⟩ := Option.isSome_iff_exists.mp (hsome hstack)
      exact ⟨sp, hsp, exists_own_of_stack hsp hstack⟩

end Stack

/-! ### Declarations -/

/-- The declarations of a `.reg` line, which commas separate. -/
def regEntries (line : Nat × Text) : List Text :=
  let s := bodyText line
  if s.startsWith ".reg".toList then
    (Text.split ((s.drop 4).takeWhile (· != ';')) ',').filterMap fun entry =>
      (Text.splitWs entry).getLast?
  else []

/-- The name is a bank and a number. -/
def isNumbered (name : Text) : Bool :=
  ["%rd".toList, "%r".toList, "%p".toList].any fun pfx =>
    name.startsWith pfx && !(name.drop pfx.length).isEmpty && (name.drop pfx.length).all isDigit

/-- The body declares the named register. -/
def DeclaresName (lines : List (Nat × Text)) (name : Text) : Prop :=
  ∃ line ∈ lines, name ∈ regEntries line ∧ '<' ∉ name ∧ isNumbered name = false

/-- The body declares the register by its own name or in a range. -/
def DeclaresReg (lines : List (Nat × Text)) (reg : Text) : Prop :=
  ∃ line ∈ lines, ∃ entry ∈ regEntries line, entry = reg ∨
    ∃ pfx digits, entry = pfx ++ '<' :: (digits ++ ['>']) ∧ (∀ d ∈ digits, isDigit d = true) ∧
      ∃ i < digitsValue digits, reg = pfx ++ Text.ofNat i

/-- The identifier occurs in the operand, and not as a part of a longer one. -/
def Mentions (tok name : Text) : Prop :=
  ∃ pre post, tok = pre ++ (name ++ post) ∧ (∀ c ∈ post.head?, isFollowSym c = false) ∧
    (name.head? = some '%' ∨ ∀ c ∈ pre.getLast?, isFollowSym c = false ∧ c ≠ '%')

/-- A line has the name in front, with a type that is numbered. -/
def NumbersName (lines : List (Nat × Text)) (name : Text) : Prop :=
  ∃ line ∈ lines, ∃ nr, lineNamed line = some nr ∧ nr.name = name ∧
    (RegBank.ofType nr.type).isSome = true

variable {lines : List (Nat × Text)}

theorem lookup_aliasTable_isSome (name : Text) :
    ((aliasTable lines).lookup name).isSome = true ↔ NumbersName lines name := by
  rw [lookup_isSome_iff, List.elem_iff, aliasTable, keys_numberFrom, namedRegs, mem_namedFrom]
  simp only [List.not_mem_nil, not_false_iff, true_and, List.mem_filterMap, NumbersName]
  constructor
  · rintro ⟨nr, ⟨line, hline, hnr⟩, hrest⟩
    exact ⟨line, hline, nr, hnr, hrest⟩
  · rintro ⟨line, hline, nr, hnr, hrest⟩
    exact ⟨nr, ⟨line, hline, hnr⟩, hrest⟩

theorem lineNamed_isNamedReg {line : Nat × Text} {nr : PendingNamedReg}
    (hnamed : lineNamed line = some nr) : isNamedReg nr.name = true := by
  unfold lineNamed at hnamed
  split at hnamed
  · split at hnamed
    · next hcond =>
      rw [Bool.and_eq_true] at hcond
      cases hnamed
      exact hcond.2
    · cases hnamed
  · cases hnamed

theorem renames_aliasTable
    (hnames : ∀ line ∈ lines, ∀ nr, lineNamed line = some nr → PlainName nr.name) :
    ∀ kv ∈ aliasTable lines, Renames kv := by
  intro kv hkv
  have hkey : ((aliasTable lines).lookup kv.1).isSome = true := by
    rw [lookup_isSome_iff, List.elem_iff]
    exact List.mem_map_of_mem hkv
  obtain ⟨line, hline, nr, hnr, hname, -⟩ := (lookup_aliasTable_isSome kv.1).mp hkey
  have hnamed := lineNamed_isNamedReg hnr
  rw [hname] at hnamed
  simp only [isNamedReg, Bool.and_eq_true, beq_iff_eq, Bool.not_eq_true'] at hnamed
  have hsigil : kv.1 = '%' :: kv.1.tail := List.eq_cons_of_mem_head? hnamed.1.1.1
  obtain ⟨before, entry, after, -, hentry⟩ := mem_aliasTable.mp hkv
  refine ⟨hname ▸ hnames line hline nr hnr, hsigil, ?_, entry.2, _, by rw [hentry]⟩
  intro hr
  have hpre : kv.1.startsWith "%r".toList = true := by
    rw [hsigil, List.eq_cons_of_mem_head? hr]
    rfl
  rw [hpre] at hnamed
  exact absurd hnamed.1.1.2 (by decide)

theorem nodup_aliasTable (lines : List (Nat × Text)) :
    ((aliasTable lines).map Prod.fst).Nodup := by
  rw [aliasTable, keys_numberFrom]
  exact nodup_namedFrom [] _

/-! ### The kernel -/

/-- The instruction stands in the body. -/
def InBody (fileName : String) (lines : List (Nat × Text)) (inst : TokenizedPtxInst) : Prop :=
  ∃ line ∈ lines, bodyInst fileName line = .ok (some inst)

/-- The named registers of a body are renamed rightly in its kernel. -/
structure NamesFaithful (order : AliasOrder) (fileName : String) (lines : List (Nat × Text))
    (regAlias : List (Text × Text)) (k : KernelTokens) : Prop where
  renamed : ∀ inst, InBody fileName lines inst → ∀ tok ∈ inst.operandTokens,
    rewriteNamedRegs (order.visit regAlias) tok = substNamed regAlias tok
  known : ∀ inst, InBody fileName lines inst → ∀ tok ∈ inst.operandTokens,
    ∀ name, DeclaresName lines name → Mentions tok name → (regAlias.lookup name).isSome = true
  distinct : ∀ kv ∈ regAlias, ∀ kv' ∈ regAlias, kv.1 ≠ kv'.1 → kv.2 ≠ kv'.2
  fresh : ∀ kv ∈ regAlias, ¬DeclaresReg lines kv.2
  stack : ∀ before line after inst, lines = before ++ line :: after →
    bodyInst fileName line = .ok (some inst) → inst.isGeneric = true →
    ∃ made, k.insts[before.countP (yields fileName)]? = some made ∧
      (made.mods.space = "local" ↔ inst.IsStackAccess)

/-- No name begins another identifier, unless the outcome is the same; each name an operand mentions
is in front of a line and has a type that is numbered; the numbers are free; and in the addresses of
a generic access nothing but the stack pointer's alias begins with that alias. -/
structure NamesSafe (fileName : String) (lines : List (Nat × Text)) : Prop where
  apart : ∀ inst, InBody fileName lines inst → ∀ tok ∈ inst.operandTokens, ∀ seg ∈ tails '%' tok,
    ∀ kv ∈ aliasTable lines, kv.1.tail <+: seg →
      kv.1.tail = seg.takeWhile isFollowSym ∨
        replaceTail kv seg = ownTail (aliasTable lines) seg
  known : ∀ inst, InBody fileName lines inst → ∀ tok ∈ inst.operandTokens,
    ∀ name, DeclaresName lines name → Mentions tok name → NumbersName lines name
  few : ∀ b, namedCount b lines ≤ 2 ^ 32
  free : ∀ b, ∀ i < namedCount b lines, ¬DeclaresReg lines (b.aliasFor (numberAt b lines i))
  stack : ∀ inst, InBody fileName lines inst → inst.isGeneric = true →
    (inst.IsStackAccess → NumbersName lines "%SP".toList) ∧
      ∀ sp, (aliasTable lines).lookup "%SP".toList = some sp → ∀ tok ∈ inst.operandTokens,
        '[' ∈ tok → ∀ seg ∈ tails '%' tok, sp.tail <+: ownTail (aliasTable lines) seg →
          inst.IsStackAccess

/-- A name in front of a tail that is the identifier there is replaced as meant. -/
theorem replaceTail_own {table : List (Text × Text)} (htable : ∀ kv ∈ table, Renames kv)
    (hnodup : (table.map Prod.fst).Nodup) {kv : Text × Text} (hkv : kv ∈ table) {seg : Text}
    (hword : kv.1.tail = seg.takeWhile isFollowSym) : replaceTail kv seg = ownTail table seg := by
  have hname : kv.1 = '%' :: seg.takeWhile isFollowSym := by
    rw [(htable kv hkv).sigil, hword]
  have hlookup := lookup_of_mem hnodup hkv
  rw [hname] at hlookup
  have hown := ownTail_eq hlookup
  rwa [← hname] at hown

/-- **Named registers.** The kernels a body becomes, whatever the order of its names, have them
renamed rightly exactly when the body is safe. -/
theorem named_regs_faithful_iff {fileName : String} {name : Text} {params : List ParamDesc}
    {k₀ : KernelTokens}
    (hnames : ∀ line ∈ lines, ∀ nr, lineNamed line = some nr → PlainName nr.name)
    (hclose : closeKernel .inserted fileName { name := name, params := params } lines = .ok k₀) :
    (∀ order k aliases,
      closeKernel order fileName { name := name, params := params } lines = .ok k →
      bodyAliases { name := name, params := params } lines = .ok aliases →
      NamesFaithful order fileName lines aliases.regAlias k) ↔ NamesSafe fileName lines := by
  have hzero : ∀ b, ({ name := name, params := params } : KernelTokens).count b = 0 := by
    rintro (_ | _) <;> rfl
  have htable := renames_aliasTable hnames
  have hnodup := nodup_aliasTable lines
  constructor
  · intro hall
    obtain ⟨aliases, found, haliases, hfound, hinsts⟩ := closeKernel_insts hclose
    have hregs := bodyAliases_table hzero haliases
    have hfirst := hall _ k₀ aliases hclose haliases
    rw [hregs] at hfirst hinsts
    have hrenamed {inst : TokenizedPtxInst} (hinst : InBody fileName lines inst) {tok : Text}
        (htok : tok ∈ inst.operandTokens) (order : AliasOrder) :
        rewriteNamedRegs (order.visit (aliasTable lines)) tok
          = substNamed (aliasTable lines) tok := by
      obtain ⟨k, hk⟩ := closeKernel_order hclose order
      have hfaithful := hall order k aliases hk haliases
      rw [hregs] at hfaithful
      exact hfaithful.renamed inst hinst tok htok
    refine ⟨?_, ?_, ?_, ?_, ?_⟩
    · intro inst hinst tok htok seg hseg kv hkv hpre
      have ⟨line, _, hline⟩ := hinst
      have hoperand := bodyInst_isOperand hline tok htok
      exact .inr ((renamed_iff htable hoperand).mp (hrenamed hinst htok) seg hseg kv hkv hpre)
    · intro inst hinst tok htok name hname hmentions
      exact (lookup_aliasTable_isSome name).mp
        (hfirst.known inst hinst tok htok name hname hmentions)
    · exact (aliases_distinct_iff lines).mp hfirst.distinct
    · exact (forall_alias_iff (P := fun reg => ¬DeclaresReg lines reg)).mp hfirst.fresh
    · intro inst hinst hgeneric
      have ⟨line, hmem, hline⟩ := hinst
      obtain ⟨before, after, hsplit⟩ := List.append_of_mem hmem
      obtain ⟨made, hmade, hmarked⟩ := hfirst.stack before line after inst hsplit hline hgeneric
      rw [hsplit] at hfound
      rw [hinsts, List.nil_append, getElem?_found hfound hline, Option.some.injEq] at hmade
      rw [← hmade, marked_iff htable hgeneric
        fun tok htok => hrenamed hinst htok .inserted] at hmarked
      exact ⟨fun hstack => (lookup_aliasTable_isSome _).mp (hmarked.1 hstack), hmarked.2⟩
  · intro hsafe order k aliases hk haliases
    obtain ⟨aliases', found, haliases', hfound, hinsts⟩ := closeKernel_insts hk
    obtain rfl : aliases = aliases' := by
      rw [haliases, Except.ok.injEq] at haliases'
      exact haliases'
    rw [bodyAliases_table hzero haliases] at hinsts ⊢
    have hrenamed : ∀ inst, InBody fileName lines inst → ∀ tok ∈ inst.operandTokens,
        rewriteNamedRegs (order.visit (aliasTable lines)) tok
          = substNamed (aliasTable lines) tok := by
      intro inst hinst tok htok
      have ⟨line, _, hline⟩ := hinst
      have hoperand := bodyInst_isOperand hline tok htok
      apply (renamed_iff htable hoperand).mpr
      intro seg hseg kv hkv hpre
      rcases hsafe.apart inst hinst tok htok seg hseg kv hkv hpre with hword | hsame
      · exact replaceTail_own htable hnodup hkv hword
      · exact hsame
    refine ⟨hrenamed, ?_, ?_, ?_, ?_⟩
    · intro inst hinst tok htok name hname hmentions
      exact (lookup_aliasTable_isSome name).mpr
        (hsafe.known inst hinst tok htok name hname hmentions)
    · exact (aliases_distinct_iff lines).mpr hsafe.few
    · exact (forall_alias_iff (P := fun reg => ¬DeclaresReg lines reg)).mpr hsafe.free
    · intro before line after inst hsplit hline hgeneric
      have hinst : InBody fileName lines inst := ⟨line, by rw [hsplit]; simp, hline⟩
      rw [hsplit] at hfound
      refine ⟨_, by rw [hinsts, List.nil_append, getElem?_found hfound hline], ?_⟩
      rw [marked_iff htable hgeneric (hrenamed inst hinst)]
      obtain ⟨hknown, honly⟩ := hsafe.stack inst hinst hgeneric
      exact ⟨fun hstack => (lookup_aliasTable_isSome _).mpr (hknown hstack), honly⟩

def stackBody : List (Nat × Text) :=
  [(1, ".reg .b64 %SP;".toList), (2, "st.u32 [%SP+4], %r1;".toList)]

theorem named_regs_faithful_iff_stack :
    (∀ order k aliases, closeKernel order "" {} stackBody = .ok k →
      bodyAliases {} stackBody = .ok aliases →
      NamesFaithful order "" stackBody aliases.regAlias k) ↔ NamesSafe "" stackBody := by
  have hclose : closeKernel .inserted "" {} stackBody = .ok
      { regU64Count := 1
        insts := [{ ptxOpcode := "st".toList, mods := { typeMod := "u32", space := "local" },
                    operandTokens := ["[%rd0+4]".toList, "%r1".toList],
                    dbg := some { file := "", line := 2, column := 1 } }] } := by rfl
  refine named_regs_faithful_iff ?_ hclose
  intro line hline nr hnr
  rcases List.mem_cons.mp hline with rfl | hline
  · obtain rfl : { type := ".b64".toList, name := "%SP".toList } = nr := Option.some.inj hnr
    exact ⟨by decide, by decide⟩
  · obtain rfl := List.mem_singleton.mp hline
    cases hnr

/-- The stack pointer and the register it is set from. -/
def prefixBody : List (Nat × Text) :=
  [(1, ".reg .b64 %SP;".toList), (2, ".reg .b64 %SPL;".toList),
    (3, "cvta.local.u64 %SP, %SPL;".toList)]

/-- The order of declaration makes `%rd0L` of the second name. -/
theorem stack_pointer_shadows :
    ∃ k aliases, closeKernel .inserted "" {} prefixBody = .ok k ∧
      bodyAliases {} prefixBody = .ok aliases ∧
      ¬NamesFaithful .inserted "" prefixBody aliases.regAlias k := by
  have hclose : closeKernel .inserted "" {} prefixBody = .ok
      { regU64Count := 2
        insts := [{ ptxOpcode := "cvta".toList, mods := { typeMod := "u64", space := "local" },
                    operandTokens := ["%rd0".toList, "%rd0L".toList],
                    dbg := some { file := "", line := 3, column := 1 } }] } := by rfl
  have haliases : bodyAliases {} prefixBody = .ok
      { cur := { regU64Count := 2 }
        regAlias := [("%SP".toList, "%rd0".toList), ("%SPL".toList, "%rd1".toList)] } := by rfl
  refine ⟨_, _, hclose, haliases, ?_⟩
  intro hfaithful
  have hinst : bodyInst "" (3, "cvta.local.u64 %SP, %SPL;".toList) = .ok (some
      { ptxOpcode := "cvta".toList, mods := { typeMod := "u64", space := "local" },
        operandTokens := ["%SP".toList, "%SPL".toList],
        dbg := some { file := "", line := 3, column := 1 } }) := by rfl
  have hrenamed := hfaithful.renamed _ ⟨_, by decide, hinst⟩ "%SPL".toList (by decide)
  exact absurd hrenamed (by decide)

end ProtoGpu
