import Mathlib
import Waitbus.Coalesce
import Waitbus.Registration
import Waitbus.Toml

/-! The allowlist's file: what is written for a list of pins, and what is read of it. The writer
escapes backslashes and quotes and leaves control characters as they are, which TOML does not have
in a string. -/

namespace Waitbus.AllowlistFile
open Python SourceRegistry PublisherPins Registration Runs

section Loading

abbrev Table := List (PyStr × PyStr)

/-- Reading a file as text makes one line feed of every kind of line break. -/
def universalNewlines : PyStr → PyStr
  | [] => []
  | .scalar '\r' :: .scalar '\n' :: rest => Toml.newline :: universalNewlines rest
  | .scalar '\r' :: rest => Toml.newline :: universalNewlines rest
  | c :: rest => c :: universalNewlines rest

/-- What a text is read as, as far as its sources go: they may be no array, and the error may be
another than `TOMLDecodeError`, as where arrays are nested too deep or an integer is too long. -/
inductive Parsed where
  | tables (tables : List Table)
  | noArray
  | decodeError
  | raised

/-- `data.get("source", [])`, where it is an array of tables. -/
def sources (doc : Toml.Document) : Parsed :=
  if ofText "source" ∈ doc.top.map (·.1) then .noArray
  else .tables ((doc.tables.filter (·.1 = ofText "source")).map (·.2))

/-- `tomllib.loads`; `other` is what it makes of the texts with lines of other kinds. -/
def parse (other : PyStr → Parsed) (text : PyStr) : Parsed :=
  match Toml.loads text with
  | .ok doc => sources doc
  | .error .decodeError => .decodeError
  | .error .beyond => other text

def pinOf (table : Table) : PublisherPin where
  name := (get table (ofText "name")).getD []
  publisherKind := (get table (ofText "publisher_kind")).getD (ofText "unknown")
  publisherIdentity := (get table (ofText "publisher_identity")).getD (ofText "unknown")
  firstPinnedAt := (get table (ofText "first_pinned_at")).getD []

def noPins : Allowlist :=
  ⟨[], List.nodup_nil⟩

/-- `pins[pin.name] = pin`. -/
def put (allowlist : Allowlist) (pin : PublisherPin) : Allowlist :=
  (allowlist.erase pin.name).insert pin (by rw [forSource_erase, if_pos rfl])

def addTable (allowlist : Allowlist) (table : Table) : Allowlist :=
  if (pinOf table).name = [] then allowlist else put allowlist (pinOf table)

def loadAllowlist (other : PyStr → Parsed) : Option PyStr → Loaded
  | none => .pins noPins
  | some text =>
    match parse other (universalNewlines text) with
    | .tables tables => .pins (tables.foldl addTable noPins)
    | .noArray | .decodeError => .corrupt
    | .raised => .failed

end Loading

section Saving

def header : List Toml.Line :=
  [.remark (ofText " waitbus plugin publisher allowlist (TOFU-pinned)."),
    .remark (ofText " Managed by `waitbus allowlist add|remove|list`. Operators MAY"),
    .remark (ofText " edit by hand; the format is stable."), .blank]

def pinLines (pin : PublisherPin) : List Toml.Line :=
  [.header (ofText "source"), .pair (ofText "name") pin.name,
    .pair (ofText "publisher_kind") pin.publisherKind,
    .pair (ofText "publisher_identity") pin.publisherIdentity,
    .pair (ofText "first_pinned_at") pin.firstPinnedAt, .blank]

/-- The pins in the order of `sorted(allowlist.pins)`. -/
def sortedPins (allowlist : Allowlist) : List PublisherPin :=
  allowlist.pins.insertionSort fun a b => Coalesce.codes a.name ≤ Coalesce.codes b.name

def lines (allowlist : Allowlist) : List Toml.Line :=
  header ++ (sortedPins allowlist).flatMap pinLines

def renderAllowlist (allowlist : Allowlist) : PyStr :=
  Toml.write (lines allowlist)

/-- The characters of `datetime.isoformat` for a time in UTC. -/
def isTimePart : PyChar → Bool
  | .scalar c => (0x30 ≤ c.toNat && c.toNat ≤ 0x39) || c = '-' || c = ':' || c = 'T' || c = '+'
  | .surrogate _ => false

abbrev SourceName := { name : PyStr // isSourceName name = true }

abbrev Time := { now : PyStr // now.all isTimePart = true }

/-- The file, and what it was to hold each time it was written. -/
structure Disk where
  file : Option PyStr
  written : List (Allowlist × PyStr)

/-- `writable` is whether the disk takes the file; a text with a lone surrogate is not encoded. -/
def writeAllowlist (d : Disk) (allowlist : Allowlist) (writable : Bool) : Disk :=
  let content := renderAllowlist allowlist
  if writable ∧ Scalar content then ⟨some content, d.written ++ [(allowlist, content)]⟩ else d

inductive Act where
  | appendPublisherPin (name : SourceName) (kind identity : PyStr) (now : Time) (writable : Bool)
  | removePublisherPin (name : SourceName) (writable : Bool)
  /-- The operator edits the file by hand. -/
  | edit (file : Option PyStr)

variable (other : PyStr → Parsed)

def rewritten (d : Disk) : Act → Option Allowlist
  | .appendPublisherPin name kind identity now _ =>
    match loadAllowlist other d.file with
    | .pins existing =>
      match appendPublisherPin existing name kind identity now with
      | .ok (_, written) => written
      | .error _ => none
    | _ => none
  | .removePublisherPin name _ =>
    match loadAllowlist other d.file with
    | .pins existing => removePublisherPin existing name
    | _ => none
  | .edit _ => none

def Act.writable : Act → Bool
  | .appendPublisherPin _ _ _ _ writable | .removePublisherPin _ writable => writable
  | .edit _ => false

def step (d : Disk) : Act → Disk
  | .edit file => { d with file }
  | act =>
    match rewritten other d act with
    | some allowlist => writeAllowlist d allowlist act.writable
    | none => d

def allowlistFile : System Disk Act where
  init d := d.written = []
  step d act := some (step other d act)

def ReadsBack (entry : Allowlist × PyStr) : Prop :=
  ∃ loaded, loadAllowlist other (some entry.2) = .pins loaded ∧ loaded.Same entry.1

structure Plain (pin : PublisherPin) : Prop where
  name : Toml.Legal pin.name
  publisherKind : Toml.Legal pin.publisherKind
  publisherIdentity : Toml.Legal pin.publisherIdentity
  firstPinnedAt : Toml.Legal pin.firstPinnedAt

/-- No pin that stays and nothing that is pinned has a control character. -/
def Keeps (d : Disk) : Act → Prop
  | .appendPublisherPin name kind identity _ _ =>
    ∀ existing, loadAllowlist other d.file = .pins existing →
      (∀ pin ∈ existing.pins, Plain pin) ∧
        Toml.Legal name ∧ Toml.Legal kind ∧ Toml.Legal identity
  | .removePublisherPin name _ =>
    ∀ existing, loadAllowlist other d.file = .pins existing →
      ∀ pin ∈ existing.pins, pin.name ≠ name → Plain pin
  | .edit _ => True

end Saving

section RoundTrip

variable {allowlist : Allowlist} {pins : List PublisherPin} {pin : PublisherPin}

def fields (pin : PublisherPin) : Table :=
  [(ofText "name", pin.name), (ofText "publisher_kind", pin.publisherKind),
    (ofText "publisher_identity", pin.publisherIdentity),
    (ofText "first_pinned_at", pin.firstPinnedAt)]

theorem pinOf_fields (pin : PublisherPin) : pinOf (fields pin) = pin := rfl

theorem foldlM_pinLines (tables : List (PyStr × Table)) (pin : PublisherPin) :
    ((pinLines pin).map Toml.Line.item).foldlM Toml.Document.add ⟨[], tables⟩ =
      .ok ⟨[], tables ++ [(ofText "source", fields pin)]⟩ := by
  simp only [pinLines, List.map_cons, List.map_nil, Toml.Line.item, List.foldlM_cons]
  rw [Toml.add_header List.not_mem_nil]
  change (Toml.Document.add _ _ >>= _) = _
  rw [Toml.add_pair (by decide)]
  change (Toml.Document.add _ _ >>= _) = _
  rw [Toml.add_pair (by simp +decide)]
  change (Toml.Document.add _ _ >>= _) = _
  rw [Toml.add_pair (by simp +decide)]
  change (Toml.Document.add _ _ >>= _) = _
  rw [Toml.add_pair (by simp +decide)]
  rfl

theorem foldlM_pins (pins : List PublisherPin) (tables : List (PyStr × Table)) :
    ((pins.flatMap pinLines).map Toml.Line.item).foldlM Toml.Document.add ⟨[], tables⟩ =
      .ok ⟨[], tables ++ pins.map fun pin => (ofText "source", fields pin)⟩ := by
  induction pins generalizing tables with
  | nil => simp [pure, Except.pure]
  | cons pin pins ih =>
    rw [List.flatMap_cons, List.map_append, List.foldlM_append, foldlM_pinLines]
    change List.foldlM _ _ _ = _
    rw [ih, List.map_cons, List.append_assoc]
    rfl

theorem framed_lines (allowlist : Allowlist) : ∀ line ∈ lines allowlist, line.Framed := by
  intro line hline
  rcases List.mem_append.mp hline with hline | hline
  · have hheader : ∀ line ∈ header, line.Framed := by
      simp only [header, List.forall_mem_cons, Toml.Line.Framed]
      exact ⟨by decide, by decide, by decide, trivial, nofun⟩
    exact hheader line hline
  · obtain ⟨pin, -, hpin⟩ := List.mem_flatMap.mp hline
    have hpins : ∀ line ∈ pinLines pin, line.Framed := by
      simp only [pinLines, List.forall_mem_cons, Toml.Line.Framed]
      exact ⟨by decide, by decide, by decide, by decide, by decide, trivial, nofun⟩
    exact hpins line hpin

theorem mem_sortedPins : pin ∈ sortedPins allowlist ↔ pin ∈ allowlist.pins :=
  List.mem_insertionSort _

theorem legal_pinLines : (∀ line ∈ pinLines pin, line.Legal) ↔ Plain pin := by
  simp only [pinLines, List.forall_mem_cons, Toml.Line.Legal, true_and]
  constructor
  · rintro ⟨hname, hkind, hidentity, hpinned, -⟩
    exact ⟨hname, hkind, hidentity, hpinned⟩
  · rintro ⟨hname, hkind, hidentity, hpinned⟩
    exact ⟨hname, hkind, hidentity, hpinned, nofun⟩

theorem legal_lines :
    (∀ line ∈ lines allowlist, line.Legal) ↔ ∀ pin ∈ allowlist.pins, Plain pin := by
  constructor
  · intro h pin hpin
    refine legal_pinLines.mp fun line hline => h line (List.mem_append_right _ ?_)
    exact List.mem_flatMap.mpr ⟨pin, mem_sortedPins.mpr hpin, hline⟩
  · intro h line hline
    rcases List.mem_append.mp hline with hline | hline
    · simp only [header, List.mem_cons, List.not_mem_nil, or_false] at hline
      rcases hline with rfl | rfl | rfl | rfl
      all_goals exact trivial
    · obtain ⟨pin, hpin, hline⟩ := List.mem_flatMap.mp hline
      exact legal_pinLines.mpr (h pin (mem_sortedPins.mp hpin)) line hline

theorem loads_renderAllowlist (plain : ∀ pin ∈ allowlist.pins, Plain pin) :
    Toml.loads (renderAllowlist allowlist) =
      .ok ⟨[], (sortedPins allowlist).map fun pin => (ofText "source", fields pin)⟩ := by
  rw [Toml.loads, renderAllowlist,
    Toml.readItems_write (framed_lines allowlist) (legal_lines.mpr plain), lines]
  have hheader : (header.map Toml.Line.item).foldlM Toml.Document.add .empty = .ok ⟨[], []⟩ := rfl
  simp only [bind, Except.bind, List.map_append, List.foldlM_append, hheader, foldlM_pins,
    List.nil_append]
  rfl

theorem universalNewlines_append {s : PyStr} (h : .scalar '\r' ∉ s) (rest : PyStr) :
    universalNewlines (s ++ rest) = s ++ universalNewlines rest := by
  induction s with
  | nil => rfl
  | cons c s ih =>
    have ⟨hc, hs⟩ := not_or.mp (List.mem_cons.not.mp h)
    rw [List.cons_append, universalNewlines, ih hs, List.cons_append]
    · exact fun _ hcr _ => hc hcr.symm
    · exact fun hcr => hc hcr.symm

theorem universalNewlines_illegal {c : PyChar} (hc : Toml.illegal c = true) (rest : PyStr) :
    ∃ d rest', universalNewlines (c :: rest) = d :: rest' ∧ Toml.illegal d = true := by
  rw [universalNewlines.eq_def]
  split
  · rename_i heq
    nomatch heq
  · exact ⟨_, _, rfl, Toml.illegal_newline⟩
  · exact ⟨_, _, rfl, Toml.illegal_newline⟩
  · rename_i heq
    obtain ⟨rfl, rfl⟩ := List.cons.inj heq
    exact ⟨_, _, rfl, hc⟩

theorem addTable_fields (named : pin.name ≠ []) (fresh : allowlist.forSource pin.name = none) :
    (addTable allowlist (fields pin)).pins = allowlist.pins ++ [pin] := by
  rw [addTable, pinOf_fields, if_neg named]
  change allowlist.pins.filter (·.name ≠ pin.name) ++ [pin] = _
  rw [List.filter_eq_self.mpr]
  intro other hother
  rw [forSource_eq_none] at fresh
  simpa using fun hname => fresh (List.mem_map.mpr ⟨other, hother, hname⟩)

theorem foldl_addTable (named : ∀ pin ∈ pins, pin.name ≠ [])
    (nodup : (allowlist.pins.map (·.name) ++ pins.map (·.name)).Nodup) :
    ((pins.map fields).foldl addTable allowlist).pins = allowlist.pins ++ pins := by
  induction pins generalizing allowlist with
  | nil => exact (List.append_nil _).symm
  | cons pin pins ih =>
    have ⟨hnamed, hrest⟩ := List.forall_mem_cons.mp named
    have hfresh : allowlist.forSource pin.name = none := by
      rw [forSource_eq_none]
      intro hmem
      exact (List.nodup_append'.mp nodup).2.2 hmem List.mem_cons_self
    have hadd := addTable_fields hnamed hfresh
    rw [List.map_cons, List.foldl_cons, ih hrest, hadd, List.append_assoc]
    · rfl
    · rw [hadd, List.map_append, List.append_assoc]
      exact nodup

variable (other : PyStr → Parsed)

theorem readsBack_of_plain (named : ∀ pin ∈ allowlist.pins, pin.name ≠ [])
    (plain : ∀ pin ∈ allowlist.pins, Plain pin) :
    ReadsBack other (allowlist, renderAllowlist allowlist) := by
  have hnewlines : universalNewlines (renderAllowlist allowlist) = renderAllowlist allowlist := by
    have hcr : .scalar '\r' ∉ renderAllowlist allowlist := by
      intro hcr
      have h := Toml.mem_write (framed_lines allowlist) (legal_lines.mpr plain) hcr
      revert h
      decide
    simpa [universalNewlines] using universalNewlines_append hcr []
  have hsources :
      sources ⟨[], (sortedPins allowlist).map fun pin => (ofText "source", fields pin)⟩ =
        .tables ((sortedPins allowlist).map fields) := by
    rw [sources, if_neg (by simp), List.filter_eq_self.mpr (by simp), List.map_map]
    rfl
  have hparse : parse other (renderAllowlist allowlist) =
      .tables ((sortedPins allowlist).map fields) := by
    rw [parse, loads_renderAllowlist plain, ← hsources]
  have hperm : (sortedPins allowlist).Perm allowlist.pins := List.perm_insertionSort _ _
  refine ⟨((sortedPins allowlist).map fields).foldl addTable noPins, ?_, ?_⟩
  · rw [loadAllowlist, hnewlines, hparse]
  · rw [Allowlist.Same, foldl_addTable]
    · exact hperm
    · exact fun pin hpin => named pin (mem_sortedPins.mp hpin)
    · exact (hperm.map _).nodup_iff.mpr allowlist.names

theorem corrupt_of_not_plain (h : ¬∀ pin ∈ allowlist.pins, Plain pin) :
    loadAllowlist other (some (renderAllowlist allowlist)) = .corrupt := by
  obtain ⟨before, key, w, c, rest, htext, framed, legal, hkey, hw, hc⟩ :=
    Toml.exists_cut (framed_lines allowlist) (legal_lines.not.mpr h)
  have hcr : .scalar '\r' ∉ Toml.write before ++ (key ++ ofText " = \"" ++ Toml.escape w) := by
    intro hcr
    rcases List.mem_append.mp hcr with hcr | hcr
    · have hwrite := Toml.mem_write framed legal hcr
      revert hwrite
      decide
    · have hlegal := Toml.legal_start hkey hw _ hcr
      revert hlegal
      decide
  obtain ⟨d, rest', hd, hillegal⟩ := universalNewlines_illegal hc rest
  have hread : universalNewlines (renderAllowlist allowlist) =
      Toml.write before ++ (key ++ ofText " = \"" ++ (Toml.escape w ++ d :: rest')) := by
    rw [renderAllowlist, htext, ← List.append_assoc _ (Toml.escape w), ← List.append_assoc,
      universalNewlines_append hcr, hd, List.append_assoc, List.append_assoc]
  have hloads : Toml.loads (universalNewlines (renderAllowlist allowlist)) =
      .error .decodeError := by
    rw [Toml.loads, hread, Toml.readItems_cut framed legal hkey hw hillegal]
    rfl
  rw [loadAllowlist, parse, hloads]

end RoundTrip

section Runs

variable {other : PyStr → Parsed} {allowlist : Allowlist} {d d' : Disk}
  {act : Act}

theorem readsBack_iff (named : ∀ pin ∈ allowlist.pins, pin.name ≠ []) :
    ReadsBack other (allowlist, renderAllowlist allowlist) ↔
      ∀ pin ∈ allowlist.pins, Plain pin := by
  constructor
  · rintro ⟨loaded, hloaded, -⟩
    by_contra hplain
    rw [corrupt_of_not_plain other hplain] at hloaded
    nomatch hloaded
  · exact readsBack_of_plain other named

theorem named_addTable (named : ∀ pin ∈ allowlist.pins, pin.name ≠ []) (table : Table) :
    ∀ pin ∈ (addTable allowlist table).pins, pin.name ≠ [] := by
  rw [addTable]
  split
  · exact named
  · rename_i hname
    intro pin hpin
    rcases List.mem_append.mp hpin with hpin | hpin
    · exact named pin (List.mem_of_mem_filter hpin)
    · rw [List.mem_singleton.mp hpin]
      exact hname

theorem named_foldl (tables : List Table) (named : ∀ pin ∈ allowlist.pins, pin.name ≠ []) :
    ∀ pin ∈ (tables.foldl addTable allowlist).pins, pin.name ≠ [] := by
  induction tables generalizing allowlist with
  | nil => exact named
  | cons table tables ih => exact ih (named_addTable named table)

theorem named_loadAllowlist {file : Option PyStr}
    (h : loadAllowlist other file = .pins allowlist) :
    ∀ pin ∈ allowlist.pins, pin.name ≠ [] := by
  cases file with
  | none =>
    obtain rfl := Loaded.pins.inj h
    exact nofun
  | some text =>
    rw [loadAllowlist] at h
    split at h
    · obtain rfl := Loaded.pins.inj h
      exact named_foldl _ nofun
    · nomatch h
    · nomatch h
    · nomatch h

theorem legal_time (now : Time) : Toml.Legal now.1 := by
  intro c hc
  have hpart := List.all_eq_true.mp now.2 c hc
  cases c with
  | surrogate unit => rfl
  | scalar c =>
    simp only [isTimePart, Bool.or_eq_true, Bool.and_eq_true, decide_eq_true_eq] at hpart
    rcases hpart with (((hpart | rfl) | rfl) | rfl) | rfl
    · have : ¬c.toNat < 32 := by omega
      have : c.toNat ≠ 127 := by omega
      simp [Toml.illegal, *]
    all_goals rfl

theorem isSourceName_ne_nil (name : SourceName) : name.1 ≠ [] := by
  intro hname
  have h := name.2
  rw [hname] at h
  nomatch h

theorem rewritten_some (h : rewritten other d act = some allowlist) :
    (∀ pin ∈ allowlist.pins, pin.name ≠ []) ∧
      ((∀ pin ∈ allowlist.pins, Plain pin) ↔ Keeps other d act) := by
  cases act with
  | edit file => nomatch h
  | appendPublisherPin name kind identity now writable =>
    rw [rewritten] at h
    split at h
    · rename_i existing hload
      split at h
      · rename_i pin written happend
        subst h
        simp only [appendPublisherPin_written happend, List.forall_mem_append,
          List.forall_mem_singleton]
        refine ⟨⟨named_loadAllowlist hload, isSourceName_ne_nil name⟩, ?_⟩
        constructor
        · rintro ⟨hexisting, hname, hkind, hidentity, -⟩ _ hsame
          rw [hload] at hsame
          obtain rfl := Loaded.pins.inj hsame
          exact ⟨hexisting, hname, hkind, hidentity⟩
        · intro hkeeps
          have ⟨hexisting, hname, hkind, hidentity⟩ := hkeeps existing hload
          exact ⟨hexisting, hname, hkind, hidentity, legal_time now⟩
      · nomatch h
    · nomatch h
  | removePublisherPin name writable =>
    rw [rewritten] at h
    split at h
    · rename_i existing hload
      simp only [removePublisherPin_written h, List.mem_filter, decide_eq_true_eq, and_imp]
      refine ⟨fun pin hpin _ => named_loadAllowlist hload pin hpin, ?_⟩
      constructor
      · intro hplain _ hsame
        rw [hload] at hsame
        obtain rfl := Loaded.pins.inj hsame
        exact hplain
      · exact fun hkeeps => hkeeps existing hload
    · nomatch h

theorem step_written (other : PyStr → Parsed) (d : Disk) (act : Act) :
    (step other d act).written = d.written ∨ ∃ allowlist, rewritten other d act = some allowlist ∧
      (step other d act).written = d.written ++ [(allowlist, renderAllowlist allowlist)] := by
  have hwrite : ∀ allowlist writable, (writeAllowlist d allowlist writable).written = d.written ∨
      (writeAllowlist d allowlist writable).written =
        d.written ++ [(allowlist, renderAllowlist allowlist)] := by
    intro allowlist writable
    rw [writeAllowlist]
    split
    · exact .inr rfl
    · exact .inl rfl
  rw [step.eq_def]
  split
  · exact .inl rfl
  · split
    · rename_i allowlist hsome
      rcases hwrite allowlist act.writable with h | h
      · exact .inl h
      · exact .inr ⟨allowlist, hsome, h⟩
    · exact .inl rfl

theorem readsBack_step {entry : Allowlist × PyStr}
    (h : (step other d act).written = d.written ++ [entry]) :
    ReadsBack other entry ↔ Keeps other d act := by
  rcases step_written other d act with hwritten | ⟨allowlist, hsome, hwritten⟩
  · rw [hwritten] at h
    exact absurd h.symm (by simp)
  · rw [hwritten, List.append_right_inj, List.cons.injEq] at h
    obtain ⟨rfl, -⟩ := h
    have ⟨hnamed, hkeeps⟩ := rewritten_some hsome
    rw [readsBack_iff hnamed, hkeeps]

/-- A file that a call writes reads back as the pins it was to hold just when neither a pin that
stays nor one that is added has a control character, so that over a run of such calls every file
written does. -/
theorem written_reads_back (other : PyStr → Parsed) :
    (∀ d act entry, (step other d act).written = d.written ++ [entry] →
        (ReadsBack other entry ↔ Keeps other d act)) ∧
      ∀ d, Reach (allowlistFile other) (Keeps other) d →
        ∀ entry ∈ d.written, ReadsBack other entry := by
  refine ⟨fun d act entry => readsBack_step, ?_⟩
  intro d hreach
  refine hreach.invariant (I := fun d => ∀ entry ∈ d.written, ReadsBack other entry) ?_ ?_
  · intro d hnone entry hentry
    rw [show d.written = [] from hnone] at hentry
    nomatch hentry
  · intro d act d' _ hd hkeeps hstep
    obtain rfl := Option.some.inj hstep
    rcases step_written other d act with hwritten | ⟨allowlist, hsome, hwritten⟩
    · rw [hwritten]
      exact hd
    · rw [hwritten]
      intro entry hentry
      rcases List.mem_append.mp hentry with hentry | hentry
      · exact hd entry hentry
      · rw [List.mem_singleton.mp hentry]
        have ⟨hnamed, hplain⟩ := rewritten_some hsome
        exact (readsBack_iff hnamed).mpr (hplain.mpr hkeeps)

def twoLines : PyStr :=
  ofText "acme\ndeploys"

theorem stamp_timeParts : (ofText "2026-01-02T03:04:05+00:00").all isTimePart = true := by decide

def pinDeploys : Act :=
  .appendPublisherPin ⟨ofText "deploys", deploys_name⟩ (ofText "GitHub") twoLines
    ⟨ofText "2026-01-02T03:04:05+00:00", stamp_timeParts⟩ true

/-- A publisher with a line feed in its identity: the file is written, and is corrupt. -/
theorem line_feed_corrupts : ¬∀ other d, Reachable (allowlistFile other) d →
    ∀ entry ∈ d.written, ReadsBack other entry := by
  intro hclaim
  have hlength : (step (fun _ => .decodeError) ⟨none, []⟩ pinDeploys).written.length = 1 := by
    decide +kernel
  obtain ⟨entry, hentry⟩ := List.length_eq_one_iff.mp hlength
  have hreach : Reachable (allowlistFile fun _ => .decodeError)
      (step (fun _ => .decodeError) ⟨none, []⟩ pinDeploys) := by
    refine .next (s := ⟨none, []⟩) (a := pinDeploys) (.start ?_) trivial ?_
    · rfl
    · rfl
  have hmem : entry ∈ (step (fun _ => .decodeError) ⟨none, []⟩ pinDeploys).written := by
    rw [hentry]
    exact List.mem_singleton_self entry
  have hkeeps := (readsBack_step (d := ⟨none, []⟩) hentry).mp (hclaim _ _ hreach entry hmem)
  have hidentity : ¬Toml.Legal twoLines := by decide
  exact hidentity (hkeeps noPins rfl).2.2.2

end Runs

end Waitbus.AllowlistFile
