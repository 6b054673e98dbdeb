import ProtoGpu.Proof.JsonDocuments
import ProtoGpu.Proof.TraceRing

/-!
# Exported traces

A trace file is read line by line. No printed value holds a line break, so the lines of the file are
the ones that were written; each of them parses, the first to the header and the others, in order,
to the events that the recorder has kept.
-/

namespace ProtoGpu

namespace Json

/-! ### Line breaks -/

/-- The text has no line break. -/
def OneLine (s : Text) : Prop := '\n' ∉ s

instance (s : Text) : Decidable (OneLine s) := inferInstanceAs (Decidable (_ ∉ _))

def AllOneLine (parts : List Text) : Prop := ∀ s ∈ parts, OneLine s

theorem OneLine.append {a b : Text} (ha : OneLine a) (hb : OneLine b) : OneLine (a ++ b) :=
  fun h => (List.mem_append.mp h).elim ha hb

theorem OneLine.cons {ch : Char} {s : Text} (hch : '\n' ≠ ch) (hs : OneLine s) :
    OneLine (ch :: s) :=
  fun h => (List.mem_cons.mp h).elim hch hs

theorem oneLine_of_allDigits {s : Text} (h : AllDigits s) : OneLine s :=
  fun hmem => absurd (h _ hmem) (by decide)

theorem oneLine_withFraction {int frac : Text} (hint : OneLine int) (hfrac : OneLine frac) :
    OneLine (withFraction int frac) := by
  unfold withFraction
  split
  · exact hint
  · next digits hdigits =>
    have hkept : frac.rdropWhile (· == '0') <+: frac := List.rdropWhile_prefix _ _
    exact hint.append (.cons (by decide) fun h => hfrac (hkept.subset h))

theorem oneLine_digitsText (m : Nat) (x : Int) : OneLine (digitsText m x) := by
  have hdigits := allDigits_decimalDigits 6 m
  have htake : ∀ k, OneLine ((decimalDigits 6 m).take k) := fun k =>
    oneLine_of_allDigits fun ch h => hdigits ch (List.mem_of_mem_take h)
  have hdrop : ∀ k, OneLine ((decimalDigits 6 m).drop k) := fun k =>
    oneLine_of_allDigits fun ch h => hdigits ch (List.mem_of_mem_drop h)
  unfold digitsText
  dsimp only
  split
  · refine (oneLine_withFraction (htake 1) (hdrop 1)).append (.cons (by decide) (.cons ?_ ?_))
    · split <;> decide
    · exact oneLine_of_allDigits (allDigits_decimalDigits _ _)
  · split
    · refine oneLine_withFraction (by decide)
        (OneLine.append (fun h => ?_) (oneLine_of_allDigits hdigits))
      exact absurd (List.eq_of_mem_replicate h) (by decide)
    · exact oneLine_withFraction (htake _) (hdrop _)

theorem oneLine_number (d : Double) : OneLine d.text := by
  have hsign : ∀ neg : Bool, OneLine (if neg then ['-'] else []) := by decide
  cases d with
  | finite neg mag =>
      refine (hsign neg).append ?_
      unfold magText
      split
      · decide
      · dsimp only
        split
        · exact oneLine_digitsText _ _
        · exact oneLine_digitsText _ _
  | inf neg => exact (hsign neg).append (by decide)

theorem oneLine_stringifyString (s : Text) : OneLine (stringifyString s) := by
  refine .cons (by decide) (OneLine.append (fun h => ?_) (by decide))
  obtain ⟨ch, -, hch⟩ := List.mem_flatMap.mp h
  unfold escape at hch
  split at hch
  case h_6 hnl _ _ => exact hnl (List.mem_singleton.mp hch).symm
  all_goals exact absurd hch (by decide)

theorem oneLine_commas {parts : List Text} (h : AllOneLine parts) : OneLine (commas parts) := by
  induction parts using commas.induct with
  | case1 => exact List.not_mem_nil
  | case2 s => exact h s List.mem_cons_self
  | case3 s more hmore ih =>
      rw [commas]
      · have hrest := ih fun t ht => h t (List.mem_cons_of_mem s ht)
        exact (h s List.mem_cons_self).append (.cons (by decide) hrest)
      · exact hmore

/-- **No printed value holds a line break.** -/
theorem oneLine_stringify (v : Value) : OneLine (stringify v) := by
  induction v using stringify.induct (motive_2 := fun o => AllOneLine (stringifyMembers o))
    (motive_3 := fun a => AllOneLine (stringifyItems a)) with
  | case1 => decide
  | case2 b => cases b <;> decide
  | case3 d => exact oneLine_number d
  | case4 s => exact oneLine_stringifyString s
  | case5 a ih => exact .cons (by decide) ((oneLine_commas ih).append (by decide))
  | case6 o ih => exact .cons (by decide) ((oneLine_commas ih).append (by decide))
  | case7 => exact fun _ h => absurd h List.not_mem_nil
  | case8 v vs ihv ihvs => exact List.forall_mem_cons.mpr ⟨ihv, ihvs⟩
  | case9 => exact fun _ h => absurd h List.not_mem_nil
  | case10 k v o ihv iho =>
      refine List.forall_mem_cons.mpr ⟨?_, iho⟩
      exact (oneLine_stringifyString k).append (.cons (by decide) ihv)

/-- Lines that are written one after the other are the lines that are read. -/
theorem splitOn_lines {lines : List Text} (h : ∀ line ∈ lines, OneLine line) :
    (lines.flatMap fun line => line ++ ['\n']).splitOn '\n' = lines ++ [[]] := by
  induction lines with
  | nil => exact List.splitOn_nil _
  | cons line lines ih =>
      obtain ⟨hline, hlines⟩ := List.forall_mem_cons.mp h
      rw [List.flatMap_cons, List.append_assoc, List.singleton_append,
        List.splitOn_append_cons_self_of_not_mem hline, ih hlines]
      rfl

end Json

open Json

/-! ### Members -/

theorem find?_presentMembers {members : List (String × Option Value)}
    (hnodup : (members.map Prod.fst).Nodup)
    {name : String} {v : Option Value} (hmem : (name, v) ∈ members) :
    find? name.toList (presentMembers members) = v := by
  cases v with
  | some v =>
      refine find?_of_mem ?_ (mem_presentMembers.mpr ⟨name, rfl, hmem⟩)
      exact (keys_presentMembers members).nodup (hnodup.map fun a b => String.toList_inj.mp)
  | none =>
      apply find?_eq_none
      intro hkey
      obtain ⟨⟨k, v⟩, hin, hk⟩ := List.mem_map.mp hkey
      obtain ⟨name', hname', hmem'⟩ := mem_presentMembers.mp hin
      obtain rfl : name' = name := String.toList_inj.mp (hname'.trans hk)
      have hsame := List.inj_on_of_nodup_map hnodup hmem hmem' rfl
      exact absurd (Prod.mk.inj hsame).2.symm (Option.some_ne_none v)

/-- The members of a line, read back. -/
theorem parse_members {members : List (String × Option Value)}
    (hnodup : (members.map Prod.fst).Nodup) (hprint : ∀ m ∈ presentMembers members, Printable m.2) :
    ∃ v, parse (stringify (.object (members.foldl setOpt []))) = .ok v
      ∧ ∀ name w, (name, w) ∈ members → v.get? name.toList = w.map reread := by
  have hblank : ∀ ch ∈ ([] : Text), isSpace ch = true := fun _ h => absurd h List.not_mem_nil
  obtain ⟨v, hparse, hget⟩ := parse_emplaceAll hprint hblank
  rw [List.append_nil, ← foldl_setOpt] at hparse
  refine ⟨v, hparse, fun name w hmem => ?_⟩
  rw [hget, find?_presentMembers hnodup hmem]

/-! ### Lines -/

/-- The value has the fields of the event, and not those the event has not. A text is the event's
own, an integer what is left of it in print. -/
structure EventRead (e : Event) (v : Value) : Prop where
  texts : ∀ name s, (name, s) ∈ e.texts → v.get? name.toList = s.map .string
  integers : ∀ name n, (name, n) ∈ e.integers →
    v.get? name.toList = n.map fun n => reread (numberValue n)

/-- The value has the fields of the header. -/
structure HeaderRead (h : TraceHeader) (v : Value) : Prop where
  action : v.get? "action".toList = some (.string "TRACE_HEADER".toList)
  formatVersion : v.get? "format_version".toList = some (reread (numberValue h.formatVersion.toNat))
  schema : v.get? "schema".toList = some (.string h.schema)
  profile : v.get? "profile".toList = some (.string h.profile)
  deterministic : v.get? "deterministic".toList = some (.bool h.deterministic)

/-- A line without its line break. -/
def eventText (e : Event) : Text := stringify (.object (e.members.foldl setOpt []))

def headerText (h : TraceHeader) : Text := stringify (.object (h.members.foldl setOpt []))

theorem read_eventText {e : Event} (hpc : ∀ pc, e.pc = some pc → pc.natAbs ≤ 2 ^ 63) :
    ∃ v, parse (eventText e) = .ok v ∧ EventRead e v := by
  have hnodup : (e.members.map Prod.fst).Nodup := by
    refine List.Nodup.of_map String.toList ?_
    rw [members_names]
    exact List.Nodup.map (fun a b => String.toList_inj.mp) (by decide)
  obtain ⟨v, hparse, hget⟩ := parse_members hnodup fun m hm =>
    printable_member (fun name n hn => printable_numberValue_wide (natAbs_integers hpc hn)) hm
  refine ⟨v, hparse, fun name s hs => ?_, fun name n hn => ?_⟩
  · have hmem : (name, s.map Value.string) ∈ e.members :=
      mem_members.mpr (.inl (List.mem_map.mpr ⟨(name, s), hs, rfl⟩))
    rw [hget name _ hmem, Option.map_map]
    rfl
  · have hmem : (name, n.map numberValue) ∈ e.members :=
      mem_members.mpr (.inr (List.mem_map.mpr ⟨(name, n), hn, rfl⟩))
    rw [hget name _ hmem, Option.map_map]
    rfl

theorem read_headerText (h : TraceHeader) : ∃ v, parse (headerText h) = .ok v ∧ HeaderRead h v := by
  have hnames :
      h.members.map Prod.fst = ["action", "format_version", "schema", "profile", "deterministic"] :=
    rfl
  have hnodup : (h.members.map Prod.fst).Nodup := by
    rw [hnames]
    decide
  have hversion : Printable (numberValue h.formatVersion.toNat) := by
    have hlt := h.formatVersion.isLt
    exact printable_numberValue_wide (by omega)
  obtain ⟨v, hparse, hget⟩ := parse_members hnodup fun m hm => by
    obtain ⟨name, hname, hmem⟩ := mem_presentMembers.mp (show (m.1, m.2) ∈ _ from hm)
    simp only [TraceHeader.members, List.mem_cons, Prod.mk.injEq, Option.some.injEq,
      List.not_mem_nil,
      or_false] at hmem
    rcases hmem with ⟨-, hv⟩ | ⟨-, hv⟩ | ⟨-, hv⟩ | ⟨-, hv⟩ | ⟨-, hv⟩
    all_goals rw [hv]
    · trivial
    · exact hversion
    · trivial
    · trivial
    · trivial
  have hread : ∀ name w, (name, some w) ∈ h.members → v.get? name.toList = some (reread w) :=
    fun name w hmem => hget name (some w) hmem
  refine ⟨v, hparse, ?_, ?_, ?_, ?_, ?_⟩
  · exact hread "action" (.string "TRACE_HEADER".toList) (by simp [TraceHeader.members])
  · exact hread "format_version" _ (by simp [TraceHeader.members])
  · exact hread "schema" (.string h.schema) (by simp [TraceHeader.members])
  · exact hread "profile" (.string h.profile) (by simp [TraceHeader.members])
  · exact hread "deterministic" (.bool h.deterministic) (by simp [TraceHeader.members])

/-! ### Files -/

theorem splitOn_traceFile (header : TraceHeader) (o : ObsControl) :
    (traceFile header o).splitOn '\n' = headerText header :: o.traceSnapshot.map eventText
      ++ [[]] := by
  have hfile : traceFile header o
      = (headerText header :: o.traceSnapshot.map eventText).flatMap fun line =>
        line ++ ['\n'] := by
    rw [List.flatMap_cons, List.flatMap_map]
    rfl
  rw [hfile]
  apply splitOn_lines
  refine List.forall_mem_cons.mpr ⟨oneLine_stringify _, fun line hline => ?_⟩
  obtain ⟨e, -, rfl⟩ := List.mem_map.mp hline
  exact oneLine_stringify _

/-- **Trace files.** After any calls of a recorder the lines of the exported file are a header line
and one line for each of the latest events that the trace has room for, in order. Each line parses,
to the header and to its event. -/
theorem trace_file_reads_back {eventSize : Nat} {cfg : ObsConfig} {o : ObsControl}
    (hnew : ObsControl.create eventSize cfg = .ok o) {calls : List ObsCall}
    (hpc : ∀ e ∈ calls.filterMap ObsCall.event?, ∀ pc, e.pc = some pc → pc.natAbs ≤ 2 ^ 63)
    (header : TraceHeader) :
    ∃ head lines, (traceFile header (calls.foldl ObsControl.step o)).splitOn '\n'
      = head :: lines ++ [[]]
      ∧ (∃ v, parse head = .ok v ∧ HeaderRead header v)
      ∧ List.Forall₂ (fun line e => ∃ v, parse line = .ok v ∧ EventRead e v) lines
          (if cfg.enabled then (calls.filterMap ObsCall.event?).rtake cfg.traceCapacity.toNat
            else []) := by
  refine ⟨_, _, splitOn_traceFile header _, read_headerText header, ?_⟩
  rw [(ObsControl.recorded hnew calls).1]
  rw [List.forall₂_map_left_iff, List.forall₂_same]
  intro e he
  refine read_eventText (hpc e ?_)
  split at he
  · exact List.mem_of_mem_drop he
  · exact absurd he List.not_mem_nil

/-- Two events for a trace of one. -/
def lastOfTwo : List ObsCall :=
  [ .emit { action := "first".toList }, .counter "events".toList 1,
    .emit { ts := 7, action := "a\nb".toList, pc := some (-1) } ]

/-- The file has the later one, on one line. -/
theorem trace_file_reads_back_wrapped :
    ∃ o head line v, ObsControl.create 8 { traceCapacity := 1 } = .ok o
      ∧ (traceFile {} (lastOfTwo.foldl ObsControl.step o)).splitOn '\n' = [head, line, []]
      ∧ parse line = .ok v ∧ v.get? "action".toList = some (.string "a\nb".toList) := by
  have hnew : ObsControl.create 8 { traceCapacity := 1 }
      = .ok { cfg := { traceCapacity := 1 }, trace := { capacity := 1 } } := rfl
  have hpc : ∀ e ∈ lastOfTwo.filterMap ObsCall.event?, ∀ pc, e.pc = some pc →
      pc.natAbs ≤ 2 ^ 63 := by
    unfold lastOfTwo
    simp [ObsCall.event?]
  obtain ⟨head, lines, hlines, -, hread⟩ := trace_file_reads_back hnew hpc {}
  have hkept : (lastOfTwo.filterMap ObsCall.event?).rtake (1 : BitVec 64).toNat
      = [{ ts := 7, action := "a\nb".toList, pc := some (-1) }] := rfl
  rw [if_pos rfl] at hread
  dsimp only at hread
  rw [hkept, List.forall₂_cons_right_iff] at hread
  obtain ⟨line, rest, ⟨v, hparse, hv⟩, hrest, rfl⟩ := hread
  obtain rfl := List.forall₂_nil_right_iff.mp hrest
  refine ⟨_, head, line, v, hnew, hlines, hparse, ?_⟩
  exact hv.texts "action" (some "a\nb".toList) (by simp [Event.texts])

end ProtoGpu
