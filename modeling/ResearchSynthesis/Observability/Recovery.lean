-- SUMMARY: The cost document after appends that were torn: what can still be read of it.
import ResearchSynthesis.Observability.Reading

/-!
# Torn appends

A write that fails may leave the beginning of a row behind, and the row that is
appended next continues its line. `costDocument_recovers` says what that costs:
the line is not taken for a row, and the rows after it are read as ever.
-/

namespace ResearchSynthesis
open Python CommonMark

/-! ## Damaged lines -/

/-- The beginnings of rows, one after another on a line of their own: what a row
    that is appended to them makes of the line has too many pieces. -/
structure Damaged (q : Str) : Prop where
  oneLine : q.OneLine
  pieces : 2 ≤ (cells q).length
  dangling : escaped q → 3 ≤ (cells q).length

theorem readCostRow_of_length {line : Str} (h : (cells line).length ≠ 8) :
    readCostRow line = none := by
  unfold readCostRow
  split
  · next hcells =>
    rw [hcells] at h
    exact absurd rfl h
  · rfl

theorem Damaged.readCostRow_append {q : Str} (h : Damaged q) {row : CostRow}
    (hdate : CellText row.date) : readCostRow (q ++ row.line) = none := by
  have hlength := length_cells_append_tableRow q row.texts
  rw [← row.line_eq_tableRow, CostRow.cells_line hdate] at hlength
  have hrow : ([] :: row.texts ++ [[]]).length = 8 := rfl
  have hpieces := h.pieces
  have hdangling := h.dangling
  refine readCostRow_of_length ?_
  split at hlength
  · next hescaped =>
    have := hdangling hescaped
    omega
  · omega

theorem escaped_eq_false_of_forall {s : Str} (h : ∀ c ∈ s, c ≠ .scalar '\\') :
    escaped s = false := by
  rcases List.eq_nil_or_concat s with rfl | ⟨s, c, rfl⟩
  · rfl
  · rw [List.concat_eq_append] at h ⊢
    exact escaped_append_of_ne _ (h c (by simp))

theorem backslash_notMem_date (t : DateTime) : ∀ c ∈ t.date, c ≠ .scalar '\\' := by
  have hpadded (width n : Nat) : ∀ c ∈ zeroPadded width n, c ≠ .scalar '\\' := by
    intro c hc
    obtain ⟨d, hd, rfl⟩ := isDigit_of_mem_zeroPadded hc
    exact (plain_of_isDigit hd).2
  have hdash : ∀ c ∈ lit "-", c ≠ .scalar '\\' := by decide
  unfold DateTime.date
  simp only [List.forall_mem_append]
  exact ⟨⟨⟨⟨hpadded _ _, hdash⟩, hpadded _ _⟩, hdash⟩, hpadded _ _⟩

theorem cells_pipe_cons (s : Str) : cells (.scalar '|' :: s) = [] :: cells s :=
  cells_pipe CellText.nil s

/-- A row begins with a pipe, and there is no backslash in front of the second one. -/
theorem damaged_of_prefix {row : CostRow} (hdate : ∃ t : DateTime, row.date = t.date) {p : Str}
    (hp : p <+: row.line) (hne : p ≠ []) : Damaged p := by
  obtain ⟨t, ht⟩ := hdate
  have honeLine : row.line.OneLine := row.oneLine_line (ht ▸ t.oneLine_date)
  have hdateCell : CellText (lit " " ++ row.date ++ lit " ") :=
    ((CellText.of_plain (by decide)).append (ht ▸ cellText_date t)).append
      (CellText.of_plain (by decide))
  have hline : row.line = .scalar '|' :: ((lit " " ++ row.date ++ lit " " ++ [.scalar '|']) ++
      row.texts.tail.flatMap (· ++ [.scalar '|'])) := by
    rw [row.line_eq_tableRow, tableRow]
    simp [CostRow.texts]
  have hplain : ∀ c ∈ lit " " ++ row.date ++ lit " " ++ [.scalar '|'], c ≠ .scalar '\\' := by
    simp only [List.forall_mem_append]
    exact ⟨⟨⟨by decide, ht ▸ backslash_notMem_date t⟩, by decide⟩, by decide⟩
  obtain ⟨c, p, rfl⟩ := List.exists_cons_of_ne_nil hne
  have hbegin := hp
  rw [hline, List.cons_prefix_cons] at hbegin
  obtain ⟨rfl, hbegin⟩ := hbegin
  refine ⟨fun c hc => honeLine c (hp.subset hc), ?_, fun hescaped => ?_⟩
  · have hrest := length_splitCells_pos [] p
    rw [cells_pipe_cons, List.length_cons]
    exact Nat.succ_le_succ hrest
  · rcases List.prefix_or_prefix_of_prefix hbegin (List.prefix_append _ _) with hshort | ⟨r, rfl⟩
    · have hlive : escaped (.scalar '|' :: p) = false := by
        refine escaped_eq_false_of_forall (List.forall_mem_cons.mpr ⟨by decide, fun c hc => ?_⟩)
        exact hplain c (hshort.subset hc)
      rw [hlive] at hescaped
      cases hescaped
    · have hrest := length_splitCells_pos [] r
      rw [cells_pipe_cons, List.append_assoc, List.singleton_append, cells_pipe hdateCell,
        List.length_cons, List.length_cons]
      exact Nat.succ_le_succ (Nat.succ_le_succ hrest)

/-- A damaged line stays one, whatever beginning of a row comes next. -/
theorem Damaged.append {p q : Str} (hq : Damaged q) (hp : Damaged p) : Damaged (q ++ p) := by
  have happend : (cells (q ++ p)).length + 1 = (cells q).length + (splitCells q p).length :=
    length_splitCells_append [] q p
  have hpos := length_splitCells_pos q p
  have hpieces : 3 ≤ (cells (q ++ p)).length := by
    cases hescaped : escaped q with
    | true =>
      have := hq.dangling hescaped
      omega
    | false =>
      have hcells : splitCells q p = cells p := splitCells_congr hescaped p
      have := hq.pieces
      have := hp.pieces
      rw [hcells] at happend
      omega
  exact ⟨hq.oneLine.append hp.oneLine, by omega, fun _ => hpieces⟩

/-! ## Reading what is left -/

/-- `text` reads as `records`; if it is damaged, its last line is. -/
inductive Reads : Str → List CostRow → Bool → Prop where
  | whole {doc : Str} (hend : doc = [] ∨ EndsInNewline doc) : Reads doc (readCostDocument doc) false
  | damaged {doc q : Str} (hend : doc = [] ∨ EndsInNewline doc) (hq : Damaged q) :
      Reads (doc ++ q) (readCostDocument doc) true

theorem readCostDocument_append_line {doc l : Str} (hdoc : doc = [] ∨ EndsInNewline doc)
    (hl : l.OneLine) : readCostDocument (doc ++ (l ++ lit "\n")) =
      readCostDocument doc ++ (readCostRow l).toList := by
  have hlines : (doc ++ (l ++ lit "\n")).splitlines = doc.splitlines ++ [l] := by
    rcases hdoc with rfl | ⟨s, rfl⟩
    · exact Str.splitlines_oneLine_newline hl
    · rw [Str.splitlines_append_newline, Str.splitlines_oneLine_newline hl]
  unfold readCostDocument
  rw [hlines, List.filterMap_append]
  cases hread : readCostRow l <;> simp [hread]

section
variable {text : Str} {records : List CostRow} {damaged : Bool}

/-- A row ends the line that it is appended to, and is read if it has that line to itself. -/
theorem Reads.append_row (h : Reads text records damaged) {row : CostRow}
    (hdate : ∃ t : DateTime, row.date = t.date) :
    Reads (text ++ row.text) (records ++ if damaged then [] else [row.shown]) false := by
  obtain ⟨t, ht⟩ := hdate
  have hcellText : CellText row.date := ht ▸ cellText_date t
  have hline : row.line.OneLine := row.oneLine_line (ht ▸ t.oneLine_date)
  rw [row.text_eq_line]
  cases h with
  | whole hend =>
    have hread := readCostDocument_append_line hend hline
    rw [readCostRow_line hcellText] at hread
    rw [if_neg Bool.false_ne_true, show [row.shown] = (some row.shown).toList from rfl, ← hread]
    exact .whole (.inr ⟨_, (List.append_assoc ..).symm⟩)
  | @damaged doc q hend hq =>
    have hread := readCostDocument_append_line hend (hq.oneLine.append hline)
    rw [hq.readCostRow_append hcellText] at hread
    rw [if_pos rfl, List.append_assoc, ← List.append_assoc q, show [] = none.toList from rfl, ← hread]
    exact .whole (.inr ⟨_, (List.append_assoc ..).symm⟩)

/-- The beginning of a row damages the line. -/
theorem Reads.append_torn (h : Reads text records damaged) {p : Str} (hp : Damaged p) :
    Reads (text ++ p) records true := by
  cases h with
  | whole hend => exact .damaged hend hp
  | damaged hend hq =>
    rw [List.append_assoc]
    exact .damaged hend (hq.append hp)

/-- A text whose last line is not damaged reads as its records. -/
theorem Reads.readCostDocument_eq (h : Reads text records false) :
    readCostDocument text = records := by
  cases h
  rfl

end

/-! ## A history of appends -/

/-- The text that an append has left behind is the whole row. -/
def Whole (a : CostRow × Str) : Bool := a.2 = a.1.text

/-- It is not whole, and not nothing either. -/
def Torn (a : CostRow × Str) : Bool := !Whole a && !a.2.isEmpty

theorem prefix_line_of_not_whole {a : CostRow × Str} (h : a.2 <+: a.1.text) (hwhole : ¬ Whole a) :
    a.2 <+: a.1.line := by
  have hne : a.2 ≠ a.1.line ++ lit "\n" := fun heq =>
    hwhole (decide_eq_true (heq.trans a.1.text_eq_line.symm))
  rw [a.1.text_eq_line] at h
  exact (List.prefix_concat_iff.mp h).resolve_left hne

/-- Of the rows that are whole, at most one is not read for each that is torn, and
    one for the damage there was. -/
theorem Reads.exists_append {text : Str} {records : List CostRow} {damaged : Bool}
    {as : List (CostRow × Str)} (h : Reads text records damaged)
    (hdates : ∀ a ∈ as, ∃ t : DateTime, a.1.date = t.date) (hbegin : ∀ a ∈ as, a.2 <+: a.1.text) :
    ∃ new damaged', Reads (text ++ as.flatMap Prod.snd) (records ++ new) damaged' ∧
      new.Sublist (as.map fun a => a.1.shown) ∧
      as.countP Whole + damaged'.toNat ≤ new.length + as.countP Torn + damaged.toNat := by
  induction as generalizing text records damaged with
  | nil => exact ⟨[], damaged, by simpa using h, List.nil_sublist _, by simp⟩
  | cons a as ih =>
    obtain ⟨hfirst, hdates⟩ := List.forall_mem_cons.mp hdates
    obtain ⟨hp, hbegin⟩ := List.forall_mem_cons.mp hbegin
    rw [List.flatMap_cons, ← List.append_assoc]
    cases hwhole : Whole a with
    | true =>
      have htext : a.2 = a.1.text := of_decide_eq_true hwhole
      obtain ⟨new, damaged', hreads, hsublist, hcount⟩ := ih (h.append_row hfirst) hdates hbegin
      refine ⟨(if damaged then [] else [a.1.shown]) ++ new, damaged', ?_, ?_, ?_⟩
      · rw [htext, ← List.append_assoc]
        exact hreads
      · cases damaged with
        | true => exact hsublist.cons _
        | false => exact hsublist.cons_cons _
      · rw [List.countP_cons_of_pos hwhole, List.countP_cons_of_neg (by simp [Torn, hwhole])]
        rw [Bool.toNat_false] at hcount
        cases damaged <;> simp <;> omega
    | false =>
      rcases eq_or_ne a.2 [] with hnil | hne
      · obtain ⟨new, damaged', hreads, hsublist, hcount⟩ := ih h hdates hbegin
        refine ⟨new, damaged', by rwa [hnil, List.append_nil], hsublist.cons _, ?_⟩
        rwa [List.countP_cons_of_neg (by simp [hwhole]),
          List.countP_cons_of_neg (by simp [Torn, hnil])]
      · have hdamaged := damaged_of_prefix hfirst
          (prefix_line_of_not_whole hp (by simp [hwhole])) hne
        obtain ⟨new, damaged', hreads, hsublist, hcount⟩ := ih (h.append_torn hdamaged) hdates hbegin
        refine ⟨new, damaged', hreads, hsublist.cons _, ?_⟩
        rw [List.countP_cons_of_neg (by simp [hwhole]),
          List.countP_cons_of_pos (by simp [Torn, hwhole, hne])]
        rw [Bool.toNat_true] at hcount
        omega

/-! ## A history of calls -/

/-- Calls of `write_cost_row`, with the answers that they get. -/
def appendRows (path : Path) : List (CostRow × FileAnswer Exn) → Disk Exn → Disk Exn
  | [], disk => disk
  | (row, answer) :: events, disk => appendRows path events (writeCostRow row path answer disk).2

/-- The call returns. -/
def returns (event : CostRow × FileAnswer Exn) : Bool :=
  match event.2 with
  | .accepts => event.1.text.encode.isSome
  | _ => false

/-- The write fails in the middle. -/
def tears (event : CostRow × FileAnswer Exn) : Bool :=
  match event.2 with
  | .failsWrite _ _ => true
  | _ => false

/-- Where the write fails, it does not leave a part of a character behind. -/
def CutBetween (event : CostRow × FileAnswer Exn) : Prop :=
  ∀ kept e b, event.2 = .failsWrite kept e → event.1.text.encode = some b →
    ∃ t : Str, t <+: event.1.text ∧ t.encode = some (b.take kept)

/-- `a` is what the call `event` has left behind. -/
structure Left (event : CostRow × FileAnswer Exn) (a : CostRow × Str) : Prop where
  row : a.1 = event.1
  start : a.2 <+: a.1.text
  whole : returns event → Whole a
  torn : Torn a → tears event

theorem exists_left {event : CostRow × FileAnswer Exn} (hcut : CutBetween event) (path : Path)
    (disk : Disk Exn) :
    ∃ a b, Left event a ∧ a.2.encode = some b ∧
      (writeCostRow event.1 path event.2 disk).2.content path = disk.content path ++ b := by
  obtain ⟨row, answer⟩ := event
  have hnothing (hreturns : returns (row, answer) = false) : Left (row, answer) (row, []) :=
    ⟨rfl, List.nil_prefix, by simp [hreturns], by simp [Torn]⟩
  unfold writeCostRow Disk.appendText
  cases answer with
  | refusesOpen e => exact ⟨_, [], hnothing rfl, rfl, by simp [Disk.writeAfter]⟩
  | accepts =>
    cases htext : row.text.encode with
    | none =>
      exact ⟨_, [], hnothing (by simp [returns, htext]), rfl,
        by simp [Disk.writeAfter, htext, Disk.content]⟩
    | some b =>
      exact ⟨(row, row.text), b, ⟨rfl, List.prefix_rfl, by simp [Whole], by simp [Torn, Whole]⟩, htext,
        by simp [Disk.writeAfter, htext, Disk.content]⟩
  | failsWrite kept e =>
    cases htext : row.text.encode with
    | none =>
      exact ⟨_, [], hnothing rfl, rfl, by simp [Disk.writeAfter, htext, Disk.content]⟩
    | some b =>
      obtain ⟨t, ht, hencode⟩ := hcut kept e b rfl htext
      exact ⟨(row, t), b.take kept, ⟨rfl, ht, by simp [returns], fun _ => rfl⟩, hencode,
        by simp [Disk.writeAfter, htext, Disk.content]⟩

section
variable {events : List (CostRow × FileAnswer Exn)} {as : List (CostRow × Str)}

theorem exists_all_left (hcuts : ∀ event ∈ events, CutBetween event) {path : Path} {disk : Disk Exn}
    {doc : Str} (hdoc : doc.encode = some (disk.content path)) :
    ∃ as, List.Forall₂ Left events as ∧
      (doc ++ as.flatMap Prod.snd).encode = some ((appendRows path events disk).content path) := by
  induction events generalizing disk doc with
  | nil => exact ⟨[], .nil, by simpa [appendRows] using hdoc⟩
  | cons event events ih =>
    obtain ⟨hcut, hcuts⟩ := List.forall_mem_cons.mp hcuts
    obtain ⟨a, b, hleft, hb, hcontent⟩ := exists_left hcut path disk
    have hnext : (doc ++ a.2).encode =
        some ((writeCostRow event.1 path event.2 disk).2.content path) := by
      rw [hcontent, Str.encode_append hdoc hb]
    obtain ⟨as, hall, hencode⟩ := ih hcuts hnext
    refine ⟨a :: as, .cons hleft hall, ?_⟩
    rw [List.flatMap_cons, ← List.append_assoc]
    exact hencode

theorem map_fst_of_left (h : List.Forall₂ Left events as) :
    as.map Prod.fst = events.map Prod.fst := by
  induction h with
  | nil => rfl
  | cons hleft _ ih => rw [List.map_cons, List.map_cons, hleft.row, ih]

theorem forall_mem_of_left (h : List.Forall₂ Left events as) (P : CostRow → Prop)
    (hP : ∀ event ∈ events, P event.1) : ∀ a ∈ as, P a.1 ∧ a.2 <+: a.1.text := by
  induction h with
  | nil => simp
  | cons hleft _ ih =>
    obtain ⟨hfirst, hrest⟩ := List.forall_mem_cons.mp hP
    exact List.forall_mem_cons.mpr ⟨⟨hleft.row ▸ hfirst, hleft.start⟩, ih hrest⟩

theorem countP_of_left (h : List.Forall₂ Left events as) :
    events.countP returns ≤ as.countP Whole ∧ as.countP Torn ≤ events.countP tears := by
  induction h with
  | nil => simp
  | @cons event a events as hleft _ ih =>
    simp only [List.countP_cons]
    have hwhole : (if returns event then 1 else 0) ≤ if Whole a then 1 else 0 := by
      by_cases hreturns : returns event
      · rw [if_pos hreturns, if_pos (hleft.whole hreturns)]
      · rw [if_neg hreturns]
        exact Nat.zero_le _
    have htorn : (if Torn a then 1 else 0) ≤ if tears event then 1 else 0 := by
      by_cases htorn : Torn a
      · rw [if_pos htorn, if_pos (hleft.torn htorn)]
      · rw [if_neg htorn]
        exact Nat.zero_le _
    omega

end

theorem appendRows_append (path : Path) (events events' : List (CostRow × FileAnswer Exn))
    (disk : Disk Exn) :
    appendRows path (events ++ events') disk =
      appendRows path events' (appendRows path events disk) := by
  induction events generalizing disk with
  | nil => rfl
  | cons event events ih => exact ih _

/-- Whatever became of the appends before it, an append that returns leaves a
    document of which everything older is read, no record is false, and of the
    rows that were written at most one is lost for each write that failed. -/
theorem costDocument_recovers {path : Path} {disk : Disk Exn} {doc : Str} {row : CostRow}
    {events : List (CostRow × FileAnswer Exn)} (hdoc : doc.encode = some (disk.content path))
    (hend : doc = [] ∨ EndsInNewline doc)
    (hdates : ∀ event ∈ events, ∃ t : DateTime, event.1.date = t.date)
    (hcuts : ∀ event ∈ events, CutBetween event) (hdate : ∃ t : DateTime, row.date = t.date)
    (hquestion : row.question.Encodable) :
    ∃ records, (Str.decode ((appendRows path (events ++ [(row, .accepts)]) disk).content path)).map
        readCostDocument = some (readCostDocument doc ++ records) ∧
      records.Sublist ((events.map Prod.fst ++ [row]).map CostRow.shown) ∧
      events.countP returns + 1 ≤ records.length + events.countP tears := by
  obtain ⟨as, hall, hencode⟩ := exists_all_left hcuts hdoc
  have hleft := forall_mem_of_left hall (fun row => ∃ t : DateTime, row.date = t.date) hdates
  obtain ⟨new, damaged, hreads, hsublist, hcount⟩ := (Reads.whole hend).exists_append
    (fun a ha => (hleft a ha).1) fun a ha => (hleft a ha).2
  have hencodable : row.text.Encodable := by
    obtain ⟨t, ht⟩ := hdate
    exact row.encodable_text.mpr ⟨ht ▸ t.encodable_date, hquestion⟩
  obtain ⟨b, hb⟩ := Str.exists_encode_iff.mpr hencodable
  have hlast : (appendRows path (events ++ [(row, .accepts)]) disk).content path =
      (appendRows path events disk).content path ++ b := by
    rw [appendRows_append]
    simp [appendRows, writeCostRow, Disk.appendText, Disk.writeAfter, hb, Disk.content]
  have hshown : (as.map fun a => a.1.shown) = (events.map Prod.fst).map CostRow.shown := by
    rw [← map_fst_of_left hall, List.map_map]
    rfl
  refine ⟨new ++ if damaged then [] else [row.shown], ?_, ?_, ?_⟩
  · rw [hlast, Str.decode_encode (Str.encode_append hencode hb), Option.map_some,
      (hreads.append_row hdate).readCostDocument_eq, List.append_assoc]
  · rw [hshown] at hsublist
    rw [List.map_append]
    exact hsublist.append (by cases damaged <;> simp)
  · obtain ⟨hreturned, htorn⟩ := countP_of_left hall
    rw [Bool.toNat_false] at hcount
    cases damaged <;> simp at hcount ⊢ <;> omega

theorem cutBetween_of_prefix {row : CostRow} {t rest : Str} {c d : Bytes} (e : Exn)
    (ht : row.text = t ++ rest) (hc : t.encode = some c) (hd : rest.encode = some d) :
    CutBetween (row, .failsWrite c.length e) := by
  rintro kept e' b hkept hb
  cases hkept
  have hsplit := Str.encode_append hc hd
  rw [← ht, show row.text.encode = some b from hb] at hsplit
  obtain rfl := Option.some.inj hsplit
  exact ⟨t, ⟨rest, ht.symm⟩, by rw [List.take_left, hc]⟩

/-- The disk is full after `| 2026`, and then it is not. -/
theorem costDocument_recovers_piped :
    ∃ records, (Str.decode ((appendRows []
        [(pipedRow, .failsWrite 6 unicodeEncodeError), (pipedRow, .accepts), (pipedRow, .accepts)]
        ⟨fun _ => none, .ok⟩).content [])).map readCostDocument = some records ∧
      records.Sublist [pipedRow.shown, pipedRow.shown, pipedRow.shown] ∧ 1 ≤ records.length := by
  have hdate : ∃ t : DateTime, pipedRow.date = t.date :=
    ⟨⟨2026, 1, 2, 3, 4, 5, 0, by decide, by decide, by decide, by decide, by decide, by decide,
      by decide⟩, by decide⟩
  have hquestion : pipedRow.question.Encodable := by decide
  have hrow : pipedRow.text.Encodable := pipedRow.encodable_text.mpr ⟨by decide, hquestion⟩
  have hsplit : pipedRow.text = lit "| 2026" ++ pipedRow.text.drop 6 := by rfl
  obtain ⟨whole, hwhole⟩ := Str.exists_encode_iff.mpr hrow
  rw [hsplit] at hrow
  obtain ⟨rest, hrest⟩ := Str.exists_encode_iff.mpr (Str.encodable_append.mp hrow).2
  have hcut : CutBetween (pipedRow, .failsWrite 6 unicodeEncodeError) :=
    cutBetween_of_prefix unicodeEncodeError hsplit rfl hrest
  obtain ⟨records, hread, hsublist, hcount⟩ := @costDocument_recovers [] ⟨fun _ => none, .ok⟩ []
    pipedRow [(pipedRow, .failsWrite 6 unicodeEncodeError), (pipedRow, .accepts)] rfl (.inl rfl)
    (by simp [hdate]) (by simpa using ⟨hcut, by rintro _ _ _ ⟨⟩⟩) hdate hquestion
  have hreturns : returns (pipedRow, .accepts) = true := by simp [returns, hwhole]
  refine ⟨records, hread, hsublist, ?_⟩
  rw [List.countP_cons_of_neg (by simp [returns]), List.countP_cons_of_pos hreturns,
    List.countP_cons_of_pos (by rfl), List.countP_cons_of_neg (by simp [tears])] at hcount
  exact Nat.le_of_add_le_add_right hcount

end ResearchSynthesis
