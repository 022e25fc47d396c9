import DocStore.Wire.FieldPath

/-!
# Field paths read off their text

A text is read one character at a time.  A name stands as it is or between backticks, where a
backslash comes before a backtick or a backslash that belongs to the name (`Place.next`), and a dot
ends a name (`Scan.step`).

What has been read is after every character what would have been written up to there
(`Scan.Reads.run`), and the text of every path is read (`Scan.run_segments`).  So a text is read as
a path exactly if it is the text of that path (`ofWireText?_eq_some`), and paths with the same text
on the wire are the same (`wireText_injective`), whatever their names.
-/

namespace DocStore.FieldPath

/-! ## Reading -/

/-- Where a reader of a path stands, with the characters of the name that it is in. -/
inductive Place where
  /-- Before a name. -/
  | opening
  /-- In a name without backticks. -/
  | bare (name : List Char)
  /-- In a name between backticks. -/
  | quoted (name : List Char)
  /-- In a name between backticks, behind a backslash. -/
  | escaped (name : List Char)
  /-- Behind the closing backtick. -/
  | closed (name : List Char)

namespace Place

/-- The place behind a character of the name.  Backticks around an identifier and needless
backslashes are refused. -/
def next : Place → Char → Option Place
  | opening, c =>
    if startsIdentifier c then some (bare [c]) else if c == '\x60' then some (quoted []) else none
  | bare name, c => if continuesIdentifier c then some (bare (name ++ [c])) else none
  | quoted name, c =>
    if c == '\\' then some (escaped name)
    else if c == '\x60' then if isIdentifier name then none else some (closed name)
    else some (quoted (name ++ [c]))
  | escaped name, c => if c == '\\' || c == '\x60' then some (quoted (name ++ [c])) else none
  | closed _, _ => none

/-- The name, where it may end. -/
def name? : Place → Option String
  | bare name | closed name => some (String.ofList name)
  | opening | quoted _ | escaped _ => none

end Place

/-- A reader of a path: the names before the last dot, and the place behind it. -/
structure Scan where
  names : List String
  place : Place

namespace Scan

/-- Before the first name. -/
def start : Scan := ⟨[], .opening⟩

/-- A character goes on in the name, or it is the dot that ends the name. -/
def step (s : Scan) (c : Char) : Option Scan :=
  match s.place.next c with
  | some place => some { s with place }
  | none => if c == '.' then s.place.name?.map fun name => ⟨s.names ++ [name], .opening⟩ else none

/-- The characters of a text, one after the other. -/
def run (s : Scan) (cs : List Char) : Option Scan := cs.foldlM step s

/-- The path, if the text may end here; the empty text has no names. -/
def path? : Scan → Option FieldPath
  | ⟨[], .opening⟩ => some ⟨[]⟩
  | ⟨names, place⟩ => place.name?.map fun name => ⟨names ++ [name]⟩

end Scan

/-- The path with a text on the wire. -/
def ofWireText? (text : String) : Option FieldPath :=
  (Scan.start.run text.toList).bind Scan.path?

/-! ## What has been read -/

theorem wireChar_of_mark {c : Char} (h : (c == '\\' || c == '\x60') = true) :
    wireChar c = ['\\', c] :=
  if_pos h

theorem wireChar_of_plain {c : Char} (h : (c == '\\' || c == '\x60') = false) :
    wireChar c = [c] :=
  if_neg (ne_true_of_eq_false h)

theorem isIdentifier_append_singleton {name : List Char} {c : Char}
    (hname : isIdentifier name = true) (hc : continuesIdentifier c = true) :
    isIdentifier (name ++ [c]) = true := by
  cases name with
  | nil => cases hname
  | cons first rest =>
      rw [isIdentifier, Bool.and_eq_true] at hname
      rw [List.cons_append, isIdentifier, hname.1, List.all_append, hname.2, List.all_cons, hc]
      rfl

namespace Place

variable {place place' : Place} {c : Char} {name : String}

/-- What has been written of a name up to a place. -/
def written : Place → List Char
  | opening => []
  | bare name => name
  | quoted name => '\x60' :: name.flatMap wireChar
  | escaped name => '\x60' :: (name.flatMap wireChar ++ ['\\'])
  | closed name => '\x60' :: (name.flatMap wireChar ++ ['\x60'])

/-- Identifiers are written without backticks, and only they. -/
def IsProper : Place → Prop
  | bare name => isIdentifier name = true
  | closed name => isIdentifier name = false
  | opening | quoted _ | escaped _ => True

/-- A character of a name is what is written next. -/
theorem written_next (hplace : place.IsProper) (h : place.next c = some place') :
    place'.IsProper ∧ place'.written = place.written ++ [c] := by
  cases place with
  | opening =>
      rw [next] at h
      split at h
      next hstarts =>
        cases h
        exact ⟨by simp [IsProper, isIdentifier, hstarts], rfl⟩
      next =>
        split at h
        next htick =>
          cases h
          rw [beq_iff_eq.1 htick]
          exact ⟨trivial, rfl⟩
        next => cases h
  | bare name =>
      rw [next] at h
      split at h
      next hcontinues =>
        cases h
        exact ⟨isIdentifier_append_singleton hplace hcontinues, rfl⟩
      next => cases h
  | quoted name =>
      rw [next] at h
      split at h
      next hmark =>
        cases h
        rw [beq_iff_eq.1 hmark]
        exact ⟨trivial, rfl⟩
      next hmark =>
        split at h
        next htick =>
          split at h
          next => cases h
          next hname =>
            cases h
            rw [beq_iff_eq.1 htick]
            exact ⟨eq_false_of_ne_true hname, rfl⟩
        next htick =>
          cases h
          have hplain : wireChar c = [c] := wireChar_of_plain (by simp [hmark, htick])
          exact ⟨trivial, by simp [written, hplain]⟩
  | escaped name =>
      rw [next] at h
      split at h
      next hmark =>
        cases h
        exact ⟨trivial, by simp [written, wireChar_of_mark hmark]⟩
      next => cases h
  | closed name => cases h

/-- What has been written of a name where it may end is the name on the wire. -/
theorem written_of_name? (hplace : place.IsProper) (h : place.name? = some name) :
    place.written = wireSegment name := by
  cases place with
  | bare cs =>
      cases h
      have hname : isIdentifier cs = true := hplace
      rw [wireSegment, String.toList_ofList, if_pos hname]
      rfl
  | closed cs =>
      cases h
      have hname : isIdentifier cs = false := hplace
      rw [wireSegment, String.toList_ofList, if_neg (ne_true_of_eq_false hname)]
      rfl
  | opening | quoted _ | escaped _ => cases h

/-- No name that may end goes on with a dot. -/
theorem next_dot (h : place.name? = some name) : place.next '.' = none := by
  cases place with
  | bare _ | closed _ => rfl
  | opening | quoted _ | escaped _ => cases h

end Place

namespace Scan

variable {s s' : Scan} {c : Char} {names : List String} {cs ds : List Char}

/-- Names on the wire, each with the dot behind it. -/
def dotted (names : List String) : List Char := names.flatMap fun name => wireSegment name ++ ['.']

theorem dotted_append_singleton (names : List String) (name : String) :
    dotted (names ++ [name]) = dotted names ++ wireSegment name ++ ['.'] := by
  simp [dotted]

theorem intercalate_append_singleton (names : List String) (last : String) :
    ['.'].intercalate ((names ++ [last]).map wireSegment) = dotted names ++ wireSegment last := by
  induction names with
  | nil => simp [dotted]
  | cons name names ih =>
      obtain ⟨next, rest, hrest⟩ := List.exists_cons_of_ne_nil
        (List.append_ne_nil_of_right_ne_nil names (List.cons_ne_nil last []))
      rw [hrest] at ih
      rw [List.cons_append, hrest, List.map_cons, List.map_cons, List.intercalate_cons_cons,
        ← List.map_cons, ih]
      simp [dotted]

/-- The reader has read some characters: they are those of its names, and of the name it is in. -/
structure Reads (s : Scan) (cs : List Char) : Prop where
  isProper : s.place.IsProper
  written : dotted s.names ++ s.place.written = cs

theorem reads_start : Reads start [] := ⟨trivial, rfl⟩

/-- One character more. -/
theorem Reads.step (h : Reads s cs) (hstep : s.step c = some s') : Reads s' (cs ++ [c]) := by
  obtain ⟨hproper, rfl⟩ := h
  unfold Scan.step at hstep
  split at hstep
  next place hnext =>
    cases hstep
    obtain ⟨hproper', hwritten⟩ := Place.written_next hproper hnext
    exact ⟨hproper', by rw [hwritten, List.append_assoc]⟩
  next =>
    split at hstep
    next hdot =>
      obtain ⟨name, hname, rfl⟩ := Option.map_eq_some_iff.1 hstep
      refine ⟨trivial, ?_⟩
      rw [beq_iff_eq.1 hdot, Place.written_of_name? hproper hname, dotted_append_singleton]
      exact List.append_nil _
    next => cases hstep

/-- Any number of characters more. -/
theorem Reads.run (h : Reads s cs) (hrun : s.run ds = some s') : Reads s' (cs ++ ds) := by
  induction ds generalizing s cs with
  | nil =>
      cases hrun
      rwa [List.append_nil]
  | cons d ds ih =>
      rw [Scan.run, List.foldlM_cons] at hrun
      obtain ⟨next, hstep, hrest⟩ := Option.bind_eq_some_iff.1 hrun
      rw [List.append_cons]
      exact ih (h.step hstep) hrest

/-- A text that may end where the reader stands is the text of the path. -/
theorem Reads.eq_wireText (h : Reads s cs) {path : FieldPath} (hpath : s.path? = some path) :
    cs = path.wireText.toList := by
  obtain ⟨hproper, rfl⟩ := h
  rw [wireText, String.toList_ofList]
  unfold path? at hpath
  split at hpath
  next =>
    cases hpath
    rfl
  next names place _ =>
    obtain ⟨name, hname, rfl⟩ := Option.map_eq_some_iff.1 hpath
    rw [intercalate_append_singleton, Place.written_of_name? hproper hname]

/-! ## Reading what is written -/

theorem run_cons (h : s.step c = some s') : s.run (c :: cs) = s'.run cs := by
  rw [run, List.foldlM_cons, h]
  rfl

theorem run_append (h : s.run cs = some s') : s.run (cs ++ ds) = s'.run ds := by
  rw [run] at h
  rw [run, List.foldlM_append, h]
  rfl

theorem step_of_next {place place' : Place} (h : place.next c = some place') :
    step ⟨names, place⟩ c = some ⟨names, place'⟩ := by
  rw [step, h]

theorem step_dot {place : Place} {name : String} (h : place.name? = some name) :
    step ⟨names, place⟩ '.' = some ⟨names ++ [name], .opening⟩ := by
  rw [step, Place.next_dot h, h]
  rfl

theorem run_bare (name : List Char) (hcs : ∀ c ∈ cs, continuesIdentifier c = true) :
    run ⟨names, .bare name⟩ cs = some ⟨names, .bare (name ++ cs)⟩ := by
  induction cs generalizing name with
  | nil =>
      rw [List.append_nil]
      rfl
  | cons c cs ih =>
      rw [List.forall_mem_cons] at hcs
      have hnext : (Place.bare name).next c = some (.bare (name ++ [c])) := if_pos hcs.1
      rw [run_cons (step_of_next hnext), List.append_cons name c cs]
      exact ih _ hcs.2

/-- A character between backticks is read as itself, also where a backslash comes before it. -/
theorem run_wireChar (name : List Char) (c : Char) :
    run ⟨names, .quoted name⟩ (wireChar c) = some ⟨names, .quoted (name ++ [c])⟩ := by
  cases hmark : c == '\\' || c == '\x60' with
  | true =>
      have hnext : (Place.escaped name).next c = some (.quoted (name ++ [c])) := if_pos hmark
      rw [wireChar_of_mark hmark, run_cons (step_of_next rfl), run_cons (step_of_next hnext)]
      rfl
  | false =>
      obtain ⟨hslash, htick⟩ := Bool.or_eq_false_iff.1 hmark
      have hnext : (Place.quoted name).next c = some (.quoted (name ++ [c])) := by
        simp [Place.next, hslash, htick]
      rw [wireChar_of_plain hmark, run_cons (step_of_next hnext)]
      rfl

theorem run_quoted (name cs : List Char) :
    run ⟨names, .quoted name⟩ (cs.flatMap wireChar) = some ⟨names, .quoted (name ++ cs)⟩ := by
  induction cs generalizing name with
  | nil =>
      rw [List.append_nil]
      rfl
  | cons c cs ih =>
      rw [List.flatMap_cons, run_append (run_wireChar name c), List.append_cons name c cs]
      exact ih _

/-- A name on the wire is read up to a place where it may end. -/
theorem run_wireSegment (names : List String) (segment : String) :
    ∃ place, place.name? = some segment ∧
      run ⟨names, .opening⟩ (wireSegment segment) = some ⟨names, place⟩ := by
  unfold wireSegment
  dsimp only
  split
  next hid =>
    refine ⟨.bare segment.toList, congrArg some String.ofList_toList, ?_⟩
    cases hcs : segment.toList with
    | nil =>
        rw [hcs] at hid
        cases hid
    | cons c cs =>
        rw [hcs, isIdentifier, Bool.and_eq_true] at hid
        have hnext : Place.opening.next c = some (.bare [c]) := if_pos hid.1
        rw [run_cons (step_of_next hnext)]
        exact run_bare [c] (List.all_eq_true.1 hid.2)
  next hid =>
    refine ⟨.closed segment.toList, congrArg some String.ofList_toList, ?_⟩
    have hclose : (Place.quoted segment.toList).next '\x60' = some (.closed segment.toList) :=
      if_neg hid
    rw [List.cons_append, run_cons (step_of_next rfl), run_append (run_quoted [] _),
      List.nil_append, run_cons (step_of_next hclose)]
    rfl

theorem path?_of_name? {place : Place} {name : String} (h : place.name? = some name) :
    path? ⟨names, place⟩ = some ⟨names ++ [name]⟩ := by
  unfold path?
  split
  next heq =>
    cases heq
    cases h
  next heq =>
    cases heq
    rw [h]
    rfl

/-- Names joined by dots are read. -/
theorem run_segments (names : List String) {segments : List String} (hne : segments ≠ []) :
    (run ⟨names, .opening⟩ (['.'].intercalate (segments.map wireSegment))).bind path?
      = some ⟨names ++ segments⟩ := by
  induction segments generalizing names with
  | nil => exact absurd rfl hne
  | cons segment segments ih =>
      obtain ⟨place, hname, hrun⟩ := run_wireSegment names segment
      cases segments with
      | nil =>
          rw [List.map_singleton, List.intercalate_singleton, hrun]
          exact path?_of_name? hname
      | cons next segments =>
          rw [List.map_cons, List.map_cons, List.intercalate_cons_cons, ← List.map_cons,
            List.append_assoc, run_append hrun, List.singleton_append, run_cons (step_dot hname),
            List.append_cons names segment (next :: segments)]
          exact ih _ (List.cons_ne_nil _ _)

end Scan

/-- A text is read as a path exactly if it is the text of the path on the wire. -/
theorem ofWireText?_eq_some {text : String} {path : FieldPath} :
    ofWireText? text = some path ↔ text = path.wireText := by
  constructor
  · intro h
    obtain ⟨s, hrun, hpath⟩ := Option.bind_eq_some_iff.1 h
    exact String.toList_inj.1 ((Scan.reads_start.run hrun).eq_wireText hpath)
  · rintro rfl
    obtain ⟨segments⟩ := path
    rw [ofWireText?, wireText, String.toList_ofList]
    by_cases hne : segments = []
    · subst hne
      rfl
    · exact Scan.run_segments [] hne

/-- Paths with the same text on the wire are the same. -/
theorem wireText_injective {path path' : FieldPath} (h : path.wireText = path'.wireText) :
    path = path' := by
  have hread := ofWireText?_eq_some.2 h
  rw [ofWireText?_eq_some.2 rfl] at hread
  exact Option.some.inj hread

/-- **Field paths on the wire.**  Paths have the same text exactly if they have the same names, and
a text is read as a path exactly if it is the text of the path. -/
theorem wireText_unambiguous :
    (∀ path other : FieldPath, path.wireText = other.wireText ↔ path.segments = other.segments) ∧
      ∀ (text : String) (path : FieldPath),
        ofWireText? text = some path ↔ text = path.wireText := by
  refine ⟨fun path other => ⟨fun h => congrArg segments (wireText_injective h), fun h => ?_⟩,
    fun text path => ofWireText?_eq_some⟩
  rw [wireText, wireText, h]

/-- A name with a dot, an identifier, and a name that ends in a backslash. -/
example : (⟨["a.b", "_c", "1\\"]⟩ : FieldPath).wireText = "`a.b`._c.`1\\\\`" := by decide

end DocStore.FieldPath
