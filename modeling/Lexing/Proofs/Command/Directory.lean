import Lexing.Command.Directory

/-! Which file a path names. Only its last part is a name, and those before it stay in the
directory, so a path that leads away from the directory names no file of it. -/

namespace Lexing.Command.Directory

/-- The parts of a path lead to a file of the directory. -/
inductive Leads (d : Directory) : List String → File → Prop
  | stay {part parts f} : part = "" ∨ part = "." → Leads d parts f → Leads d (part :: parts) f
  | name {name f} : name ∉ ["", ".", ".."] → (textBytes name).length ≤ longestName →
      d.files.find? (·.name = name) = some f → Leads d [name] f

/-- The path is neither empty nor too long, starts in the directory and leads to the file. -/
structure Names (d : Directory) (path : String) (f : File) : Prop where
  ne_empty : path ≠ ""
  length_le : (textBytes path).length ≤ longestPath
  relative : path.toList.head? ≠ some '/'
  leads : Leads d (path.splitOn "/") f

section Steps

variable {d : Directory} {f g : File} {part : String} {parts : List String}

theorem step_elsewhere (d : Directory) (part : String) :
    d.step .elsewhere part = .ok .elsewhere ∨ ∃ e, d.step .elsewhere part = .error e := by
  unfold step
  dsimp only
  split
  · exact .inl rfl
  · split
    · exact .inl rfl
    · split <;> exact .inr ⟨_, rfl⟩

theorem step_directory (d : Directory) (part : String) : d.step .directory part =
    if part = "" ∨ part = "." then .ok .directory
    else if part = ".." then .ok .elsewhere
    else if longestName < (textBytes part).length then .error .nameTooLong
    else ((d.files.find? (·.name = part)).map fun f => .ok (.file f)).getD (.error .notFound) := by
  unfold step
  dsimp only
  cases d.files.find? (·.name = part) <;> rfl

theorem foldlM_file : parts.foldlM d.step (.file g) = .ok (.file f) ↔ parts = [] ∧ g = f := by
  cases parts with
  | nil => simp [pure, Except.pure]
  | cons part parts => simp [step, bind, Except.bind]

theorem foldlM_elsewhere : parts.foldlM d.step .elsewhere ≠ .ok (.file f) := by
  induction parts with
  | nil => simp [pure, Except.pure]
  | cons part parts ih =>
    rw [List.foldlM_cons]
    rcases d.step_elsewhere part with hstep | ⟨e, hstep⟩
    · rw [hstep]
      exact ih
    · rw [hstep]
      exact nofun

theorem leads_stay_iff (hstay : part = "" ∨ part = ".") :
    Leads d (part :: parts) f ↔ Leads d parts f := by
  constructor
  · rintro (⟨-, hleads⟩ | ⟨hname, -, -⟩)
    · exact hleads
    · rcases hstay with rfl | rfl <;> simp at hname
  · exact .stay hstay

/-- A part that does not stay in the directory is a name, and the last part. -/
theorem leads_name_iff (hstay : ¬ (part = "" ∨ part = ".")) : Leads d (part :: parts) f ↔
    parts = [] ∧ part ∉ ["", ".", ".."] ∧ (textBytes part).length ≤ longestName ∧
      d.files.find? (·.name = part) = some f := by
  constructor
  · rintro (⟨hstay', -⟩ | ⟨hname, hlen, hfind⟩)
    · exact absurd hstay' hstay
    · exact ⟨rfl, hname, hlen, hfind⟩
  · rintro ⟨rfl, hname, hlen, hfind⟩
    exact .name hname hlen hfind

theorem foldlM_directory : parts.foldlM d.step .directory = .ok (.file f) ↔ Leads d parts f := by
  induction parts with
  | nil =>
    constructor
    · simp [pure, Except.pure]
    · exact nofun
  | cons part parts ih =>
    rw [List.foldlM_cons, step_directory]
    split
    · next hstay =>
      rw [leads_stay_iff hstay]
      exact ih
    · next hstay =>
      rw [leads_name_iff hstay]
      split
      · next hup =>
        refine iff_of_false foldlM_elsewhere ?_
        simp [hup]
      · next hup =>
        split
        · next hlong =>
          refine iff_of_false nofun ?_
          rintro ⟨-, -, hlen, -⟩
          exact absurd hlen (Nat.not_le.mpr hlong)
        · next hlong =>
          have hname : part ∉ ["", ".", ".."] := by simpa [and_assoc] using And.intro hstay hup
          cases hfind : d.files.find? (·.name = part) with
          | none => exact iff_of_false nofun nofun
          | some g =>
            show parts.foldlM d.step (.file g) = .ok (.file f) ↔ _
            rw [foldlM_file]
            simp [hname, Nat.not_lt.mp hlong]

end Steps

theorem locate_eq_file_iff {d : Directory} {path : String} {f : File} :
    d.locate path = .ok (.file f) ↔ Names d path f := by
  rw [locate]
  split
  · next hempty => exact iff_of_false nofun fun h => h.ne_empty hempty
  · next hempty =>
    split
    · next hlong => exact iff_of_false nofun fun h => absurd h.length_le (Nat.not_le.mpr hlong)
    · next hlong =>
      dsimp only
      split
      · next hslash => exact iff_of_false foldlM_elsewhere fun h => h.relative hslash
      · next hslash =>
        rw [foldlM_directory]
        exact ⟨fun h => ⟨hempty, Nat.not_lt.mp hlong, hslash, h⟩, fun h => h.leads⟩

theorem read_of_names {d : Directory} {path : String} {f : File} (h : Names d path f) :
    d.read path = if f.readable then .ok f.content else .error .permissionDenied := by
  rw [read, locate_eq_file_iff.mpr h]
  rfl

/-- What is read is the content of the file that the path names. -/
theorem read_eq_ok_iff {d : Directory} {path : String} {content : ByteArray} :
    d.read path = .ok content ↔ ∃ f, Names d path f ∧ f.readable = true ∧ f.content = content := by
  constructor
  · intro h
    cases hlocate : d.locate path with
    | error e =>
      rw [read, hlocate] at h
      contradiction
    | ok place =>
      cases place with
      | directory | elsewhere =>
        rw [read, hlocate] at h
        contradiction
      | file f =>
        have hnames := locate_eq_file_iff.mp hlocate
        rw [read_of_names hnames] at h
        split at h
        · next hreadable => exact ⟨f, hnames, hreadable, Except.ok.inj h⟩
        · contradiction
  · rintro ⟨f, hnames, hreadable, rfl⟩
    rw [read_of_names hnames, if_pos hreadable]

/-- A run of the program lists the text of the file that its path names. -/
theorem run_of_names {d : Directory} {args : List String} {options : Options} {f : File}
    {source : Source} (hargs : Request.ofArgs args = .lex options) (h : Names d options.path f)
    (hreadable : f.readable = true) (hdecode : decode f.content = .ok source) :
    run args d.read = lexOutcome options (.ok source) := by
  rw [run, hargs]
  dsimp only
  rw [read_of_names h, if_pos hreadable, ← hdecode]
  rfl

end Lexing.Command.Directory
