import Waitbus.Python

/-! The lines of TOML that a table of strings needs: comments, headers of arrays of tables, and
pairs of a bare key and a basic string. What a line of another kind would mean is left open. What is
written in these lines reads back unless a string has a control character of its own. -/

namespace Waitbus.Toml
open Python

section Reading

def newline : PyChar := .scalar '\n'

def quote : PyChar := .scalar '"'

def backslash : PyChar := .scalar '\\'

/-- A control character other than a tab: no comment and no basic string may have one. -/
def illegal : PyChar → Bool
  | .scalar c => (c.toNat < 32 && c ≠ '\t') || c.toNat = 127
  | .surrogate _ => false

/-- Why a text is not read: it is no TOML, or has a line that is not of the kinds above. -/
inductive Stop where
  | decodeError
  | beyond
  deriving DecidableEq

inductive Item where
  | blank
  | header (key : PyStr)
  | pair (key value : PyStr)
  deriving DecidableEq

def isBlank (c : PyChar) : Bool :=
  c = .scalar ' ' || c = .scalar '\t'

def skipBlanks (s : PyStr) : PyStr :=
  s.dropWhile isBlank

/-- `[A-Za-z0-9_-]`. -/
def isBareKey : PyChar → Bool
  | .scalar c =>
    (0x41 ≤ c.toNat && c.toNat ≤ 0x5a) || (0x61 ≤ c.toNat && c.toNat ≤ 0x7a) ||
      (0x30 ≤ c.toNat && c.toNat ≤ 0x39) || c = '_' || c = '-'
  | .surrogate _ => false

def unescape : PyChar → Except Stop PyChar
  | .scalar 'b' => .ok (.scalar '\x08')
  | .scalar 't' => .ok (.scalar '\t')
  | .scalar 'n' => .ok (.scalar '\n')
  | .scalar 'f' => .ok (.scalar '\x0c')
  | .scalar 'r' => .ok (.scalar '\r')
  | .scalar '"' => .ok quote
  | .scalar '\\' => .ok backslash
  | .scalar 'u' | .scalar 'U' => .error .beyond
  | _ => .error .decodeError

/-- A basic string behind its first quote, and what follows its last one. -/
def basicString : PyStr → Except Stop (PyStr × PyStr)
  | [] => .error .decodeError
  | .scalar '"' :: rest => .ok ([], rest)
  | .scalar '\\' :: [] => .error .decodeError
  | .scalar '\\' :: c :: rest => do
    let c ← unescape c
    let (value, rest) ← basicString rest
    return (c :: value, rest)
  | c :: rest =>
    if illegal c then .error .decodeError
    else do
      let (value, rest) ← basicString rest
      return (c :: value, rest)

def ending (item : Item) (s : PyStr) : Except Stop Item :=
  match skipBlanks s with
  | [] => .ok item
  | .scalar '#' :: comment => if comment.any illegal then .error .decodeError else .ok item
  | _ => .error .decodeError

def pairValue (key s : PyStr) : Except Stop Item :=
  match skipBlanks s with
  | [] => .error .decodeError
  | .scalar '"' :: .scalar '"' :: .scalar '"' :: _ => .error .beyond
  | .scalar '"' :: rest => do
    let (value, rest) ← basicString rest
    ending (.pair key value) rest
  | _ => .error .beyond

def header (s : PyStr) : Except Stop Item :=
  let s := skipBlanks s
  let key := s.takeWhile isBareKey
  if key = [] then .error .beyond
  else
    match skipBlanks (s.dropWhile isBareKey) with
    | .scalar ']' :: .scalar ']' :: rest => ending (.header key) rest
    | .scalar '.' :: _ => .error .beyond
    | _ => .error .decodeError

def pair (s : PyStr) : Except Stop Item :=
  let key := s.takeWhile isBareKey
  match skipBlanks (s.dropWhile isBareKey) with
  | .scalar '=' :: rest => pairValue key rest
  | .scalar '.' :: _ => .error .beyond
  | _ => .error .decodeError

def readLine (s : PyStr) : Except Stop Item :=
  match skipBlanks s with
  | .scalar '[' :: .scalar '[' :: rest => header rest
  | .scalar '[' :: _ | .scalar '"' :: _ | .scalar '\'' :: _ => .error .beyond
  | c :: rest => if isBareKey c then pair (c :: rest) else ending .blank (c :: rest)
  | [] => .ok .blank

def readItems (s : PyStr) : Except Stop (List Item) :=
  (s.splitOnP (· = newline)).mapM readLine

/-- The pairs before any header, and the tables behind the headers. -/
structure Document where
  top : List (PyStr × PyStr)
  tables : List (PyStr × List (PyStr × PyStr))

def Document.empty : Document :=
  ⟨[], []⟩

/-- A key that stands twice in one table is an error, and so is a header that is a key. -/
def Document.add (doc : Document) : Item → Except Stop Document
  | .blank => .ok doc
  | .header key =>
    if key ∈ doc.top.map (·.1) then .error .decodeError
    else .ok { doc with tables := doc.tables ++ [(key, [])] }
  | .pair key value =>
    match doc.tables.getLast? with
    | none =>
      if key ∈ doc.top.map (·.1) then .error .decodeError
      else .ok { doc with top := doc.top ++ [(key, value)] }
    | some (name, table) =>
      if key ∈ table.map (·.1) then .error .decodeError
      else .ok { doc with
        tables := doc.tables.dropLast ++ [(name, table ++ [(key, value)])] }

def loads (s : PyStr) : Except Stop Document := do
  (← readItems s).foldlM Document.add .empty

end Reading

section Writing

/-- A string between its quotes, with its backslashes and quotes escaped. -/
def escape (s : PyStr) : PyStr :=
  s.flatMap fun c =>
    if c = backslash then [backslash, backslash]
    else if c = quote then [backslash, quote]
    else [c]

/-- A line that is written. -/
inductive Line where
  | remark (text : PyStr)
  | blank
  | header (key : PyStr)
  | pair (key value : PyStr)

def Line.text : Line → PyStr
  | .remark text => ofText "#" ++ text
  | .blank => []
  | .header key => ofText "[[" ++ key ++ ofText "]]"
  | .pair key value => key ++ ofText " = \"" ++ escape value ++ ofText "\""

def Line.item : Line → Item
  | .remark _ | .blank => .blank
  | .header key => .header key
  | .pair key value => .pair key value

def write (lines : List Line) : PyStr :=
  lines.flatMap fun line => line.text ++ [newline]

def bareKey (key : PyStr) : Prop :=
  key ≠ [] ∧ ∀ c ∈ key, isBareKey c = true

def Legal (s : PyStr) : Prop :=
  ∀ c ∈ s, illegal c = false

instance (s : PyStr) : Decidable (Legal s) :=
  inferInstanceAs (Decidable (∀ c ∈ s, illegal c = false))

instance (key : PyStr) : Decidable (bareKey key) :=
  inferInstanceAs (Decidable (_ ∧ _))

def Line.Framed : Line → Prop
  | .remark text => Legal text
  | .blank => True
  | .header key => bareKey key
  | .pair key _ => bareKey key

def Line.Legal : Line → Prop
  | .pair _ value => Toml.Legal value
  | _ => True

end Writing

section Values

variable {c : PyChar} {s w value key rest : PyStr}

theorem illegal_newline : illegal newline = true := rfl

theorem ne_of_legal {d : PyChar} (hc : illegal c = false) (hd : illegal d = true) : c ≠ d := by
  rintro rfl
  rw [hc] at hd
  nomatch hd

theorem basicString_plain (hquote : c ≠ quote) (hbackslash : c ≠ backslash) (rest : PyStr) :
    basicString (c :: rest) =
      if illegal c then .error .decodeError
      else (basicString rest).map fun read => (c :: read.1, read.2) := by
  rw [basicString]
  · split
    · rfl
    · cases basicString rest <;> rfl
  · exact hquote
  · exact fun h _ => hbackslash h
  · exact fun _ _ h _ => hbackslash h

theorem basicString_quote (rest : PyStr) : basicString (quote :: rest) = .ok ([], rest) := by
  rw [quote, basicString]

theorem basicString_escaped (hc : c = quote ∨ c = backslash) (rest : PyStr) :
    basicString (backslash :: c :: rest) =
      (basicString rest).map fun read => (c :: read.1, read.2) := by
  rcases hc with rfl | rfl
  · simp only [backslash, quote, basicString, unescape]
    cases basicString rest <;> rfl
  · simp only [backslash, basicString, unescape]
    cases basicString rest <;> rfl

theorem escape_cons (c : PyChar) (s : PyStr) :
    escape (c :: s) =
      (if c = backslash then [backslash, backslash]
        else if c = quote then [backslash, quote] else [c]) ++ escape s :=
  List.flatMap_cons

/-- Behind an escaped string without control characters, reading goes on where the string ends. -/
theorem basicString_escape (h : Legal w) (rest : PyStr) :
    basicString (escape w ++ rest) =
      (basicString rest).map fun read => (w ++ read.1, read.2) := by
  induction w with
  | nil =>
    change basicString rest = _
    cases basicString rest <;> rfl
  | cons c w ih =>
    have hw := ih fun d hd => h d (List.mem_cons_of_mem _ hd)
    rw [escape_cons, List.append_assoc]
    split
    · rename_i hc
      subst hc
      change basicString (backslash :: backslash :: (escape w ++ rest)) = _
      rw [basicString_escaped (.inr rfl), hw]
      cases basicString rest <;> rfl
    split
    · rename_i hc
      subst hc
      change basicString (backslash :: quote :: (escape w ++ rest)) = _
      rw [basicString_escaped (.inl rfl), hw]
      cases basicString rest <;> rfl
    · rename_i hbackslash hquote
      change basicString (c :: (escape w ++ rest)) = _
      rw [basicString_plain hquote hbackslash, if_neg (by simp [h c List.mem_cons_self]), hw]
      cases basicString rest <;> rfl

theorem mem_escape : c ∈ escape s ↔ c ∈ s ∨ c = backslash ∧ quote ∈ s := by
  induction s with
  | nil => simp [escape]
  | cons d s ih =>
    rw [escape_cons, List.mem_append, ih, List.mem_cons, List.mem_cons]
    split
    · rename_i hd
      subst hd
      simp [quote, backslash, or_assoc]
    split
    · rename_i hd
      subst hd
      simp only [List.mem_cons, List.not_mem_nil, or_false, true_or, and_true]
      tauto
    · rename_i hquote
      simp [Ne.symm hquote, or_assoc]

theorem exists_illegal (h : ¬Legal s) :
    ∃ w c rest, s = w ++ c :: rest ∧ Legal w ∧ illegal c = true := by
  induction s with
  | nil => exact absurd nofun h
  | cons c s ih =>
    cases hc : illegal c with
    | true => exact ⟨[], c, s, rfl, nofun, hc⟩
    | false =>
      have hs : ¬Legal s := fun hs => h (List.forall_mem_cons.mpr ⟨hc, hs⟩)
      obtain ⟨w, d, rest, rfl, hw, hd⟩ := ih hs
      exact ⟨c :: w, d, rest, rfl, List.forall_mem_cons.mpr ⟨hc, hw⟩, hd⟩

end Values

section Lines

variable {c : PyChar} {s w value key rest : PyStr} {line : Line} {lines : List Line}

theorem isBareKey_scalar (hc : isBareKey c = true) : illegal c = false ∧ isBlank c = false ∧
    c ≠ quote ∧ c ≠ .scalar '[' ∧ c ≠ .scalar '\'' := by
  cases c with
  | surrogate unit => nomatch hc
  | scalar d =>
    have hcode : (0x30 ≤ d.toNat ∧ d.toNat ≤ 0x7a ∧ d.toNat ≠ 0x5b) ∨ d = '-' := by
      simp only [isBareKey, Bool.or_eq_true, Bool.and_eq_true, decide_eq_true_eq] at hc
      rcases hc with (((hc | hc) | hc) | hc) | hc
      · omega
      · omega
      · omega
      · simp [hc]
      · exact .inr hc
    rcases hcode with hcode | rfl
    · have hdiffers : ∀ e : Char, e.toNat < 0x30 ∨ 0x7a < e.toNat ∨ e.toNat = 0x5b → d ≠ e := by
        rintro e he rfl
        omega
      refine ⟨?_, ?_, ?_, ?_, ?_⟩
      · have : ¬d.toNat < 32 := by omega
        have : d.toNat ≠ 127 := by omega
        simp [illegal, *]
      · simp [isBlank, hdiffers ' ' (by decide), hdiffers '\t' (by decide)]
      · simp [quote, hdiffers '"' (by decide)]
      · simp [hdiffers '[' (by decide)]
      · simp [hdiffers '\'' (by decide)]
    · decide

theorem takeWhile_bareKey (hkey : bareKey key) (hc : isBareKey c = false) (rest : PyStr) :
    (key ++ c :: rest).takeWhile isBareKey = key := by
  rw [List.takeWhile_append_of_pos hkey.2, List.takeWhile_cons_of_neg (by simp [hc]),
    List.append_nil]

theorem dropWhile_bareKey (hkey : bareKey key) (hc : isBareKey c = false) (rest : PyStr) :
    (key ++ c :: rest).dropWhile isBareKey = c :: rest := by
  rw [List.dropWhile_append_of_pos hkey.2, List.dropWhile_cons_of_neg (by simp [hc])]

theorem skipBlanks_cons (hc : isBlank c = false) (rest : PyStr) :
    skipBlanks (c :: rest) = c :: rest :=
  List.dropWhile_cons_of_neg (by simp [hc])

theorem readLine_bareKey (hkey : bareKey key) (rest : PyStr) :
    readLine (key ++ rest) = pair (key ++ rest) := by
  obtain ⟨hne, hchars⟩ := hkey
  cases key with
  | nil => exact absurd rfl hne
  | cons c key =>
    have hc := hchars c List.mem_cons_self
    have ⟨_, hblank, hquote, hbracket, hsingle⟩ := isBareKey_scalar hc
    rw [readLine, List.cons_append, skipBlanks_cons hblank]
    split
    · rename_i heq
      exact absurd (List.cons.inj heq).1 hbracket
    · rename_i heq
      exact absurd (List.cons.inj heq).1 hbracket
    · rename_i heq
      exact absurd (List.cons.inj heq).1 hquote
    · rename_i heq
      exact absurd (List.cons.inj heq).1 hsingle
    · rename_i heq
      obtain ⟨rfl, rfl⟩ := List.cons.inj heq
      rw [if_pos hc]
    · rename_i heq
      nomatch heq

theorem readLine_pair (hkey : bareKey key) (hrest : ¬[quote, quote] <+: rest) :
    readLine (key ++ ofText " = \"" ++ rest) =
      (basicString rest).bind fun read => ending (.pair key read.1) read.2 := by
  have htext : key ++ ofText " = \"" ++ rest =
      key ++ .scalar ' ' :: .scalar '=' :: .scalar ' ' :: quote :: rest := by
    rw [List.append_assoc]
    rfl
  rw [htext, readLine_bareKey hkey, pair, takeWhile_bareKey hkey rfl, dropWhile_bareKey hkey rfl]
  change pairValue key (.scalar ' ' :: quote :: rest) = _
  rw [pairValue]
  rw [show skipBlanks (.scalar ' ' :: quote :: rest) = quote :: rest from rfl]
  split
  · rename_i heq
    cases heq
  · rename_i heq
    obtain ⟨-, rfl⟩ := List.cons.inj heq
    exact absurd ⟨_, rfl⟩ hrest
  · rename_i heq
    obtain ⟨-, rfl⟩ := List.cons.inj heq
    rfl
  · rename_i heq
    exact absurd rfl (heq _)

theorem write_cons (line : Line) (lines : List Line) :
    write (line :: lines) = line.text ++ newline :: write lines := by
  rw [write, List.flatMap_cons, List.append_assoc]
  rfl

theorem ending_nil (item : Item) : ending item [] = .ok item := rfl

theorem legal_bareKey (hkey : bareKey key) : Legal key :=
  fun c hc => (isBareKey_scalar (hkey.2 c hc)).1

theorem not_quotes_escape (w : PyStr) (hrest : ¬[quote, quote] <+: rest) :
    ¬[quote, quote] <+: escape w ++ rest := by
  rintro ⟨tail, htail⟩
  cases w with
  | nil => exact hrest ⟨tail, htail⟩
  | cons c w =>
    rw [escape_cons, List.append_assoc] at htail
    split at htail
    · exact absurd (List.cons.inj htail).1 (by decide)
    split at htail
    · exact absurd (List.cons.inj htail).1 (by decide)
    · rename_i hquote
      exact hquote (List.cons.inj htail).1.symm

theorem legal_start (hkey : bareKey key) (hw : Legal w) :
    Legal (key ++ ofText " = \"" ++ escape w) := by
  intro c hc
  rcases List.mem_append.mp hc with hc | hc
  · rcases List.mem_append.mp hc with hc | hc
    · exact legal_bareKey hkey c hc
    · exact (show Legal (ofText " = \"") by decide) c hc
  · rcases mem_escape.mp hc with hc | ⟨rfl, _⟩
    · exact hw c hc
    · rfl

theorem Line.legal_text (framed : line.Framed) (legal : line.Legal) : Toml.Legal line.text := by
  cases line with
  | remark text =>
    intro c hc
    rcases List.mem_append.mp hc with hc | hc
    · obtain rfl := List.mem_singleton.mp hc
      rfl
    · exact framed c hc
  | blank => exact nofun
  | header key =>
    intro c hc
    rcases List.mem_append.mp hc with hc | hc
    · rcases List.mem_append.mp hc with hc | hc
      · exact (show Toml.Legal (ofText "[[") by decide) c hc
      · exact legal_bareKey framed c hc
    · exact (show Toml.Legal (ofText "]]") by decide) c hc
  | pair key value =>
    intro c hc
    rcases List.mem_append.mp hc with hc | hc
    · exact legal_start framed legal c hc
    · exact (show Toml.Legal (ofText "\"") by decide) c hc

theorem mem_write (framed : ∀ line ∈ lines, line.Framed) (legal : ∀ line ∈ lines, line.Legal)
    (h : c ∈ write lines) : c = newline ∨ illegal c = false := by
  obtain ⟨line, hline, hc⟩ := List.mem_flatMap.mp h
  rcases List.mem_append.mp hc with hc | hc
  · exact .inr (Line.legal_text (framed line hline) (legal line hline) c hc)
  · exact .inl (List.mem_singleton.mp hc)

theorem readLine_text (framed : line.Framed) (legal : line.Legal) :
    readLine line.text = .ok line.item := by
  cases line with
  | remark text =>
    change (if text.any illegal then _ else _) = _
    have hlegal : Toml.Legal text := framed
    rw [if_neg (by simpa [Toml.Legal] using hlegal)]
    rfl
  | blank => rfl
  | header key =>
    change header (key ++ .scalar ']' :: [.scalar ']']) = _
    have hskip : skipBlanks (key ++ .scalar ']' :: [.scalar ']']) =
        key ++ .scalar ']' :: [.scalar ']'] := by
      cases key with
      | nil => exact absurd rfl framed.1
      | cons c key => exact skipBlanks_cons (isBareKey_scalar (framed.2 c List.mem_cons_self)).2.1 _
    rw [header, hskip, takeWhile_bareKey framed rfl, dropWhile_bareKey framed rfl, if_neg framed.1]
    rfl
  | pair key value =>
    change readLine (key ++ ofText " = \"" ++ escape value ++ [quote]) = _
    rw [List.append_assoc, readLine_pair framed (not_quotes_escape _ (by decide)),
      basicString_escape legal, basicString_quote, Except.map, Except.bind, List.append_nil]
    exact ending_nil _

theorem basicString_illegal (hc : illegal c = true) (rest : PyStr) :
    basicString (c :: rest) = .error .decodeError := by
  rw [basicString_plain, if_pos hc]
  · rintro rfl
    nomatch hc
  · rintro rfl
    nomatch hc

theorem readLine_cut (hkey : bareKey key) (hw : Legal w) (hquotes : ¬[quote, quote] <+: rest)
    (hrest : basicString rest = .error .decodeError) :
    readLine (key ++ ofText " = \"" ++ (escape w ++ rest)) = .error .decodeError := by
  rw [readLine_pair hkey (not_quotes_escape w hquotes), basicString_escape hw, hrest]
  rfl

theorem lines_cons (hs : Legal s) (rest : PyStr) :
    (s ++ newline :: rest).splitOnP (· = newline) = s :: rest.splitOnP (· = newline) := by
  refine List.splitOnP_append_cons_of_forall_mem ?_ newline (by simp) rest
  intro c hc
  simpa using ne_of_legal (hs c hc) illegal_newline

theorem readItems_append (framed : ∀ line ∈ lines, line.Framed) (legal : ∀ line ∈ lines, line.Legal)
    (rest : PyStr) :
    readItems (write lines ++ rest) = (readItems rest).map (lines.map Line.item ++ ·) := by
  induction lines with
  | nil =>
    change readItems rest = _
    cases readItems rest <;> rfl
  | cons line lines ih =>
    have hline := Line.legal_text (framed line List.mem_cons_self) (legal line List.mem_cons_self)
    have hread := readLine_text (framed line List.mem_cons_self) (legal line List.mem_cons_self)
    have hlines := ih (fun l hl => framed l (List.mem_cons_of_mem _ hl))
      (fun l hl => legal l (List.mem_cons_of_mem _ hl))
    rw [readItems] at hlines ⊢
    rw [write_cons, List.append_assoc, List.cons_append, lines_cons hline, List.mapM_cons, hread]
    rw [hlines]
    cases readItems rest <;> rfl

theorem readItems_write (framed : ∀ line ∈ lines, line.Framed)
    (legal : ∀ line ∈ lines, line.Legal) :
    readItems (write lines) = .ok (lines.map Line.item ++ [.blank]) := by
  have h := readItems_append framed legal []
  rw [List.append_nil] at h
  rw [h]
  rfl

theorem splitOnP_head (s : PyStr) :
    ∃ tail, s.splitOnP (· = newline) = s.takeWhile (· ≠ newline) :: tail := by
  induction s with
  | nil => exact ⟨[], rfl⟩
  | cons c s ih =>
    obtain ⟨tail, htail⟩ := ih
    rw [List.splitOnP_cons_eq_if_modifyHead]
    by_cases hc : c = newline
    · exact ⟨s.splitOnP (· = newline), by simp [hc]⟩
    · exact ⟨tail, by simp [hc, htail]⟩

theorem readItems_error {stop : Stop} (h : readLine (s.takeWhile (· ≠ newline)) = .error stop) :
    readItems s = .error stop := by
  obtain ⟨tail, htail⟩ := splitOnP_head s
  rw [readItems, htail, List.mapM_cons, h]
  rfl

theorem readItems_cut (framed : ∀ line ∈ lines, line.Framed) (legal : ∀ line ∈ lines, line.Legal)
    (hkey : bareKey key) (hw : Legal w) (hc : illegal c = true) (rest : PyStr) :
    readItems (write lines ++ (key ++ ofText " = \"" ++ (escape w ++ c :: rest))) =
      .error .decodeError := by
  rw [readItems_append framed legal]
  suffices h : readItems (key ++ ofText " = \"" ++ (escape w ++ c :: rest)) = .error .decodeError by
    rw [h]
    rfl
  apply readItems_error
  have hstart : ∀ d ∈ key ++ ofText " = \"" ++ escape w, d ≠ newline :=
    fun d hd => ne_of_legal (legal_start hkey hw d hd) illegal_newline
  rw [← List.append_assoc, List.takeWhile_append_of_pos (by simpa using hstart), List.append_assoc]
  by_cases hnewline : c = newline
  · rw [List.takeWhile_cons_of_neg (by simp [hnewline])]
    exact readLine_cut hkey hw (by decide) rfl
  · rw [List.takeWhile_cons_of_pos (by simp [hnewline])]
    refine readLine_cut hkey hw ?_ (basicString_illegal hc _)
    rintro ⟨tail, htail⟩
    obtain ⟨rfl, -⟩ := List.cons.inj htail
    nomatch hc

theorem exists_cut (framed : ∀ line ∈ lines, line.Framed) (h : ¬∀ line ∈ lines, line.Legal) :
    ∃ before key w c rest,
      write lines = write before ++ (key ++ ofText " = \"" ++ (escape w ++ c :: rest)) ∧
        (∀ line ∈ before, line.Framed) ∧ (∀ line ∈ before, line.Legal) ∧
        bareKey key ∧ Legal w ∧ illegal c = true := by
  induction lines with
  | nil => exact absurd nofun h
  | cons line lines ih =>
    have ⟨hframed, hrest⟩ := List.forall_mem_cons.mp framed
    by_cases hline : line.Legal
    · have hlines : ¬∀ line ∈ lines, line.Legal :=
        fun hlines => h (List.forall_mem_cons.mpr ⟨hline, hlines⟩)
      obtain ⟨before, key, w, c, rest, htext, hbefore, hlegal, hcut⟩ := ih hrest hlines
      refine ⟨line :: before, key, w, c, rest, ?_, List.forall_mem_cons.mpr ⟨hframed, hbefore⟩,
        List.forall_mem_cons.mpr ⟨hline, hlegal⟩, hcut⟩
      rw [write_cons, write_cons, htext, List.append_assoc line.text, List.cons_append]
    · cases line with
      | remark text => exact absurd trivial hline
      | blank => exact absurd trivial hline
      | header key => exact absurd trivial hline
      | pair key value =>
        obtain ⟨w, c, tail, rfl, hw, hc⟩ := exists_illegal hline
        refine ⟨[], key, w, c,
          escape tail ++ ofText "\"" ++ newline :: write lines, ?_, nofun, nofun, hframed, hw, hc⟩
        have hplain : escape (c :: tail) = c :: escape tail := by
          rw [escape_cons, if_neg, if_neg]
          · rfl
          · rintro rfl
            nomatch hc
          · rintro rfl
            nomatch hc
        have happend : escape (w ++ c :: tail) = escape w ++ c :: escape tail := by
          rw [← hplain]
          exact List.flatMap_append
        rw [write_cons, Line.text, happend]
        simp only [List.append_assoc, List.cons_append]
        rfl

end Lines

section Documents

variable {top : List (PyStr × PyStr)} {tables : List (PyStr × List (PyStr × PyStr))}
  {name key : PyStr} {table : List (PyStr × PyStr)}

theorem add_header (h : key ∉ top.map (·.1)) :
    Document.add ⟨top, tables⟩ (.header key) = .ok ⟨top, tables ++ [(key, [])]⟩ :=
  if_neg h

theorem add_pair (h : key ∉ table.map (·.1)) (value : PyStr) :
    Document.add ⟨top, tables ++ [(name, table)]⟩ (.pair key value) =
      .ok ⟨top, tables ++ [(name, table ++ [(key, value)])]⟩ := by
  simp only [Document.add, List.getLast?_concat, List.dropLast_concat]
  rw [if_neg h]

end Documents

end Waitbus.Toml
