import ImportAtlas.Proofs.Except
import ImportAtlas.Proofs.File.Parts

/-!
# What is where in a tree

A tree is described by what stands at each location, where a directory counts
for no more than being one: its entries stand at locations of their own. So a
change of one entry is a change at one location. `Leads` says of steps that they
go from directory to directory, through links; it depends on the directories and
links that it passes and on nothing else in the tree.
-/

namespace ImportAtlas

namespace Node

/-- What a node is, without what is in it. -/
inductive Face where
  | file (file : RegularFile)
  | link (target : Path)
  | directory
  deriving DecidableEq

def face : Node → Face
  | .file held => .file held
  | .link target => .link target
  | .directory _ => .directory

def faceAt (root : Node) (location : Location) : Option Face :=
  (root.at? location).map face

theorem at?_append (root : Node) (front back : Location) :
    root.at? (front ++ back) = (root.at? front).bind (·.at? back) := by
  induction front generalizing root with
  | nil => simp [at?]
  | cons name front ih =>
    cases root with
    | directory entries =>
      rw [List.cons_append, at?, at?]
      cases entries.lookup name with
      | none => rfl
      | some child => exact ih child
    | file file => simp [at?]
    | link target => simp [at?]

theorem at?_concat {root : Node} {here : Location} {entries : List (String × Node)}
    (h : root.at? here = some (.directory entries)) (name : String) :
    root.at? (here ++ [name]) = entries.lookup name := by
  rw [at?_append, h, Option.bind_some, at?]
  cases entries.lookup name <;> simp [at?]

theorem faceAt_eq_directory {root : Node} {location : Location} :
    root.faceAt location = some .directory ↔
      ∃ entries, root.at? location = some (.directory entries) := by
  unfold faceAt
  cases root.at? location with
  | none => simp
  | some node => cases node <;> simp [face]

theorem faceAt_eq_file {root : Node} {location : Location} {file : RegularFile} :
    root.faceAt location = some (.file file) ↔ root.at? location = some (.file file) := by
  unfold faceAt
  cases root.at? location with
  | none => simp
  | some node => cases node <;> simp [face]

theorem faceAt_eq_link {root : Node} {location : Location} {target : Path} :
    root.faceAt location = some (.link target) ↔ root.at? location = some (.link target) := by
  unfold faceAt
  cases root.at? location with
  | none => simp
  | some node => cases node <;> simp [face]

theorem faceAt_eq_none {root : Node} {location : Location} :
    root.faceAt location = none ↔ root.at? location = none := by
  simp [faceAt]

theorem faceAt_of_below {root : Node} (here : Location) {name : String} {rest : Location}
    (h : root.faceAt (here ++ name :: rest) ≠ none) : root.faceAt here = some .directory := by
  rw [Ne, faceAt_eq_none, at?_append] at h
  rw [faceAt_eq_directory]
  cases hhere : root.at? here with
  | none =>
    rw [hhere] at h
    exact absurd rfl h
  | some node =>
    rw [hhere, Option.bind_some] at h
    cases node with
    | directory entries => exact ⟨entries, rfl⟩
    | file file => exact absurd rfl h
    | link target => exact absurd rfl h

theorem faceAt_dropLast {root : Node} {here : Location}
    (h : root.faceAt here = some .directory) : root.faceAt here.dropLast = some .directory := by
  rcases List.eq_nil_or_concat here with rfl | ⟨front, last, rfl⟩
  · exact h
  · rw [List.concat_eq_append] at h
    rw [List.concat_eq_append, List.dropLast_concat]
    apply faceAt_of_below front
    rw [h]
    exact Option.some_ne_none _

/-! ## Entries -/

theorem lookup_cons_if (key other : String) (kept : Node) (entries : List (String × Node)) :
    ((key, kept) :: entries).lookup other =
      if other = key then some kept else entries.lookup other := by
  rw [List.lookup_cons]
  by_cases h : other = key
  · rw [if_pos h, beq_iff_eq.2 h]
  · rw [if_neg h, beq_eq_false_iff_ne.2 h]

theorem lookup_putEntry (name other : String) (node : Node) (entries : List (String × Node)) :
    (putEntry name node entries).lookup other =
      if other = name then some node else entries.lookup other := by
  induction entries with
  | nil => rw [putEntry, lookup_cons_if]
  | cons entry entries ih =>
    obtain ⟨key, kept⟩ := entry
    rw [putEntry]
    split
    · rw [lookup_cons_if]
    · rename_i hcompare
      obtain rfl := Std.compare_eq_iff_eq.1 hcompare
      rw [lookup_cons_if, lookup_cons_if]
      by_cases h : other = name <;> simp [h]
    · rename_i hcompare
      have hne : name ≠ key := by
        rintro rfl
        rw [Std.compare_eq_iff_eq.2 rfl] at hcompare
        cases hcompare
      rw [lookup_cons_if, lookup_cons_if, ih]
      by_cases h : other = name
      · subst h
        rw [if_neg hne, if_pos rfl, if_pos rfl]
      · simp [h]

theorem lookup_eraseEntry (name other : String) (entries : List (String × Node)) :
    (eraseEntry name entries).lookup other =
      if other = name then none else entries.lookup other := by
  unfold eraseEntry
  induction entries with
  | nil => simp
  | cons entry entries ih =>
    obtain ⟨key, kept⟩ := entry
    rw [List.filter_cons, lookup_cons_if]
    by_cases hkey : key = name
    · subst hkey
      rw [if_neg (by simp), ih]
      by_cases h : other = key <;> simp [h]
    · rw [if_pos (by simpa using hkey), lookup_cons_if, ih]
      by_cases h : other = key
      · subst h
        simp [hkey]
      · simp [h]

theorem faceAt_cons (entries : List (String × Node)) (name : String) (rest : Location) :
    (directory entries).faceAt (name :: rest) =
      (entries.lookup name).bind (·.faceAt rest) := by
  unfold faceAt
  rw [at?, Option.map_bind]
  rfl

theorem faceAt_below_eq_none {root : Node} (here : Location) {name : String} {rest : Location}
    (h : root.faceAt here ≠ some .directory) : root.faceAt (here ++ name :: rest) = none := by
  by_cases hbelow : root.faceAt (here ++ name :: rest) = none
  · exact hbelow
  · exact absurd (faceAt_of_below here hbelow) h

section Edit

variable {edit : Location → Node → Node} {name : String} (held : Option RegularFile)

/-- An edit that goes down to a directory and changes what one name stands for there, where no
directory stands, changes what is seen at that one location. -/
theorem faceAt_edit
    (hdown : ∀ first second rest entries child, entries.lookup first = some child →
      edit (first :: second :: rest) (.directory entries) =
        .directory (putEntry first (edit (second :: rest) child) entries))
    (hlast : ∀ entries, ∃ changed, edit [name] (.directory entries) = .directory changed ∧
      ∀ other, changed.lookup other =
        if other = name then held.map .file else entries.lookup other)
    {root : Node} {here : Location} (hhere : root.faceAt here = some .directory)
    (hold : root.faceAt (here ++ [name]) ≠ some .directory) (location : Location) :
    (edit (here ++ [name]) root).faceAt location =
      if location = here ++ [name] then held.map .file else root.faceAt location := by
  induction here generalizing root location with
  | nil =>
    obtain ⟨entries, hroot⟩ := faceAt_eq_directory.1 hhere
    obtain rfl : root = .directory entries := Option.some.inj hroot
    obtain ⟨changed, hedit, hlookup⟩ := hlast entries
    rw [List.nil_append, hedit]
    cases location with
    | nil => rfl
    | cons first rest =>
      rw [faceAt_cons, hlookup]
      by_cases hfirst : first = name
      · subst hfirst
        rw [if_pos rfl]
        cases rest with
        | nil => cases held <;> simp [faceAt, at?, face]
        | cons second rest =>
          have hnone : (directory entries).faceAt (first :: second :: rest) = none :=
            faceAt_below_eq_none [first] hold
          rw [hnone]
          cases held <;> simp [faceAt, at?]
      · rw [if_neg hfirst, if_neg (by simp [hfirst]), faceAt_cons]
  | cons head here ih =>
    have hroot : root.faceAt [] = some .directory :=
      faceAt_of_below [] (by rw [List.nil_append, hhere]; exact Option.some_ne_none _)
    obtain ⟨entries, hroot⟩ := faceAt_eq_directory.1 hroot
    obtain rfl : root = .directory entries := Option.some.inj hroot
    rw [List.cons_append] at hold ⊢
    rw [faceAt_cons] at hhere hold
    cases hchild : entries.lookup head with
    | none =>
      rw [hchild] at hhere
      cases hhere
    | some child =>
      rw [hchild, Option.bind_some] at hhere hold
      obtain ⟨second, rest, hpath⟩ : ∃ second rest, here ++ [name] = second :: rest :=
        List.exists_cons_of_ne_nil (by simp)
      have hedit : edit (head :: (here ++ [name])) (.directory entries) =
          .directory (putEntry head (edit (here ++ [name]) child) entries) := by
        rw [hpath]
        exact hdown _ _ _ _ _ hchild
      rw [hedit]
      cases location with
      | nil => rfl
      | cons other rest =>
        rw [faceAt_cons, faceAt_cons, lookup_putEntry]
        by_cases hother : other = head
        · subst hother
          rw [if_pos rfl, Option.bind_some, hchild, Option.bind_some, ih hhere hold]
          simp
        · rw [if_neg hother, if_neg (by simp [hother])]

end Edit

theorem faceAt_putAt_file {root : Node} {here : Location} {name : String}
    (hhere : root.faceAt here = some .directory)
    (hold : root.faceAt (here ++ [name]) ≠ some .directory) (held : RegularFile)
    (location : Location) :
    (putAt (.file held) (here ++ [name]) root).faceAt location =
      if location = here ++ [name] then some (.file held) else root.faceAt location := by
  apply faceAt_edit (some held) ?_ ?_ hhere hold
  · intro first second rest entries child hchild
    simp only [putAt, hchild]
  · intro entries
    exact ⟨putEntry name (.file held) entries, rfl, fun other => lookup_putEntry name other _ _⟩

theorem faceAt_eraseAt {root : Node} {here : Location} {name : String}
    (hhere : root.faceAt here = some .directory)
    (hold : root.faceAt (here ++ [name]) ≠ some .directory) (location : Location) :
    (eraseAt (here ++ [name]) root).faceAt location =
      if location = here ++ [name] then none else root.faceAt location := by
  apply faceAt_edit none ?_ ?_ hhere hold
  · intro first second rest entries child hchild
    simp only [eraseAt, hchild]
  · intro entries
    exact ⟨eraseEntry name entries, rfl, fun other => lookup_eraseEntry name other _⟩

end Node

/-! ## Leading from directory to directory -/

namespace FileTree

open Node

/-- `Leads root links here steps there left`: the steps go from the directory `here` to the
directory `there`, and of the links that may be followed `left` remain. -/
inductive Leads (root : Node) : Nat → Location → List Path.Step → Location → Nat → Prop where
  | done {links : Nat} {here : Location} (hhere : root.faceAt here = some .directory) :
      Leads root links here [] here links
  | stay {links left : Nat} {here there : Location} {rest : List Path.Step}
      (hhere : root.faceAt here = some .directory) (hrest : Leads root links here rest there left) :
      Leads root links here (.stay :: rest) there left
  | up {links left : Nat} {here there : Location} {rest : List Path.Step}
      (hhere : root.faceAt here = some .directory)
      (hrest : Leads root links here.dropLast rest there left) :
      Leads root links here (.up :: rest) there left
  | enter {links left : Nat} {here there : Location} {name : String} {rest : List Path.Step}
      (hhere : root.faceAt here = some .directory) (hname : isLongName name = false)
      (hentry : root.faceAt (here ++ [name]) = some .directory)
      (hrest : Leads root links (here ++ [name]) rest there left) :
      Leads root links here (.enter name :: rest) there left
  | follow {links left : Nat} {here there : Location} {name : String} {target : Path}
      {rest : List Path.Step} (hhere : root.faceAt here = some .directory)
      (hname : isLongName name = false)
      (hentry : root.faceAt (here ++ [name]) = some (.link target))
      (hrest : Leads root links (if target.isAbsolute then [] else here) (target.steps ++ rest)
        there left) :
      Leads root (links + 1) here (.enter name :: rest) there left

namespace Leads

variable {root : Node} {links left : Nat} {here there : Location} {steps : List Path.Step}

theorem directory (h : Leads root links here steps there left) :
    root.faceAt there = some .directory := by
  induction h with
  | done hhere => exact hhere
  | stay _ _ ih | up _ _ ih | enter _ _ _ _ ih | follow _ _ _ _ ih => exact ih

theorem left_le (h : Leads root links here steps there left) : left ≤ links := by
  induction h with
  | done => exact Nat.le_refl _
  | stay _ _ ih | up _ _ ih | enter _ _ _ _ ih => exact ih
  | follow _ _ _ _ ih => exact Nat.le_succ_of_le ih

theorem mono {other : Node}
    (hother : ∀ location face, root.faceAt location = some face → (∀ file, face ≠ .file file) →
      other.faceAt location = some face)
    (h : Leads root links here steps there left) : Leads other links here steps there left := by
  have hdirectory : ∀ location, root.faceAt location = some .directory →
      other.faceAt location = some .directory := by
    intro location hlocation
    exact hother location _ hlocation (fun _ h => nomatch h)
  induction h with
  | done hhere => exact .done (hdirectory _ hhere)
  | stay hhere _ ih => exact .stay (hdirectory _ hhere) ih
  | up hhere _ ih => exact .up (hdirectory _ hhere) ih
  | enter hhere hname hentry _ ih =>
    exact .enter (hdirectory _ hhere) hname (hdirectory _ hentry) ih
  | follow hhere hname hentry _ ih =>
    exact .follow (hdirectory _ hhere) hname (hother _ _ hentry (fun _ h => nomatch h)) ih

theorem append {middle : Nat} {between : Location} {front back : List Path.Step}
    (hfront : Leads root links here front between middle)
    (hback : Leads root middle between back there left) :
    Leads root links here (front ++ back) there left := by
  induction hfront with
  | done hhere => exact hback
  | stay hhere _ ih => exact .stay hhere (ih hback)
  | up hhere _ ih => exact .up hhere (ih hback)
  | enter hhere hname hentry _ ih => exact .enter hhere hname hentry (ih hback)
  | follow hhere hname hentry _ ih =>
    have hrest := ih hback
    rw [List.append_assoc] at hrest
    exact .follow hhere hname hentry hrest

end Leads

theorem locateFrom_nil (root : Node) (follow : Bool) (links : Nat) (here : Location) :
    locateFrom root follow links here [] = .ok here := by
  cases links <;> rfl

/-- One step of a look-up; behind a link it goes on with fewer links to follow. -/
theorem locateFrom_cons {root : Node} {follow : Bool} {links : Nat} {here : Location}
    {entries : List (String × Node)} (h : root.at? here = some (.directory entries))
    (step : Path.Step) (rest : List Path.Step) :
    locateFrom root follow links here (step :: rest) =
      match step with
      | .stay => locateFrom root follow links here rest
      | .up => locateFrom root follow links here.dropLast rest
      | .enter name =>
        if isLongName name then .error .nameTooLong
        else match entries.lookup name with
        | some (.link target) =>
          if rest.isEmpty && !follow then .ok (here ++ [name])
          else match links with
            | 0 => .error .tooManyLinks
            | fewer + 1 =>
              locateFrom root follow fewer (if target.isAbsolute then [] else here)
                (target.steps ++ rest)
        | some _ => locateFrom root follow links (here ++ [name]) rest
        | none => if rest.isEmpty then .ok (here ++ [name]) else .error .notFound := by
  cases links with
  | zero =>
    rw [locateFrom, locateBy]
    generalize root.at? here = node at h
    subst h
    rfl
  | succ fewer =>
    rw [locateFrom, locateBy]
    generalize root.at? here = node at h
    subst h
    rfl

section Steps

variable {root : Node} {follow : Bool} {links : Nat} {here : Location} {name : String}

theorem locateFrom_stay (hhere : root.faceAt here = some .directory) (rest : List Path.Step) :
    locateFrom root follow links here (.stay :: rest) = locateFrom root follow links here rest := by
  obtain ⟨entries, hentries⟩ := faceAt_eq_directory.1 hhere
  rw [locateFrom_cons hentries]

theorem locateFrom_up (hhere : root.faceAt here = some .directory) (rest : List Path.Step) :
    locateFrom root follow links here (.up :: rest) =
      locateFrom root follow links here.dropLast rest := by
  obtain ⟨entries, hentries⟩ := faceAt_eq_directory.1 hhere
  rw [locateFrom_cons hentries]

theorem locateFrom_enter (hhere : root.faceAt here = some .directory)
    (hname : isLongName name = false) {face : Face}
    (hentry : root.faceAt (here ++ [name]) = some face) (hface : ∀ target, face ≠ .link target)
    (rest : List Path.Step) :
    locateFrom root follow links here (.enter name :: rest) =
      locateFrom root follow links (here ++ [name]) rest := by
  obtain ⟨entries, hentries⟩ := faceAt_eq_directory.1 hhere
  obtain ⟨node, hnode, rfl⟩ := Option.map_eq_some_iff.1 hentry
  rw [at?_concat hentries] at hnode
  rw [locateFrom_cons hentries]
  simp only [hname, hnode, Bool.false_eq_true, if_false]
  cases node with
  | link target => exact absurd rfl (hface target)
  | file file => rfl
  | directory entries => rfl

theorem locateFrom_link (hhere : root.faceAt here = some .directory)
    (hname : isLongName name = false) {target : Path}
    (hentry : root.faceAt (here ++ [name]) = some (.link target)) (rest : List Path.Step) :
    locateFrom root true (links + 1) here (.enter name :: rest) =
      locateFrom root true links (if target.isAbsolute then [] else here)
        (target.steps ++ rest) := by
  obtain ⟨entries, hentries⟩ := faceAt_eq_directory.1 hhere
  rw [faceAt_eq_link, at?_concat hentries] at hentry
  rw [locateFrom_cons hentries]
  simp [hname, hentry]

end Steps

theorem locateFrom_of_leads {root : Node} {links left : Nat} {here there : Location}
    {front : List Path.Step} (h : Leads root links here front there left)
    (back : List Path.Step) :
    locateFrom root true links here (front ++ back) = locateFrom root true left there back := by
  induction h with
  | done hhere => rfl
  | stay hhere _ ih => rw [List.cons_append, locateFrom_stay hhere, ih]
  | up hhere _ ih => rw [List.cons_append, locateFrom_up hhere, ih]
  | enter hhere hname hentry _ ih =>
    rw [List.cons_append, locateFrom_enter hhere hname hentry (fun _ h => nomatch h), ih]
  | follow hhere hname hentry _ ih =>
    rw [List.cons_append, locateFrom_link hhere hname hentry, ← List.append_assoc, ih]

theorem Leads.locateFrom_eq {root : Node} {links left : Nat} {here there : Location}
    {steps : List Path.Step} (h : Leads root links here steps there left) :
    locateFrom root true links here steps = .ok there := by
  have hsteps := locateFrom_of_leads h []
  rwa [List.append_nil, locateFrom_nil] at hsteps

theorem directory_of_locateFrom {root : Node} {follow : Bool} {links : Nat}
    {here location : Location} {step : Path.Step} {rest : List Path.Step}
    (h : locateFrom root follow links here (step :: rest) = .ok location) :
    root.faceAt here = some .directory := by
  by_cases hhere : root.faceAt here = some .directory
  · exact hhere
  · have herror : locateFrom root follow links here (step :: rest) = .error .notDirectory := by
      cases links <;> rw [locateFrom, locateBy]
      all_goals
        split
        · rename_i entries hentries
          exact absurd (faceAt_eq_directory.2 ⟨entries, hentries⟩) hhere
        · rfl
    rw [herror] at h
    cases h

theorem locateFrom_enter_cases {root : Node} {links : Nat} {here location : Location}
    {name : String} {step : Path.Step} {rest : List Path.Step}
    (h : locateFrom root true links here (.enter name :: step :: rest) = .ok location) :
    isLongName name = false ∧
      (root.faceAt (here ++ [name]) = some .directory ∧
          locateFrom root true links (here ++ [name]) (step :: rest) = .ok location ∨
        ∃ target fewer, links = fewer + 1 ∧ root.faceAt (here ++ [name]) = some (.link target) ∧
          locateFrom root true fewer (if target.isAbsolute then [] else here)
            (target.steps ++ step :: rest) = .ok location) := by
  have hhere := directory_of_locateFrom h
  obtain ⟨entries, hentries⟩ := faceAt_eq_directory.1 hhere
  have hname : isLongName name = false := by
    rw [locateFrom_cons hentries] at h
    cases hlong : isLongName name with
    | false => rfl
    | true => simp [hlong] at h
  refine ⟨hname, ?_⟩
  cases hentry : root.faceAt (here ++ [name]) with
  | none =>
    rw [faceAt_eq_none, at?_concat hentries] at hentry
    rw [locateFrom_cons hentries] at h
    simp [hname, hentry] at h
  | some face =>
    cases face with
    | file file =>
      rw [locateFrom_enter hhere hname hentry (fun _ h => nomatch h)] at h
      have hfile := directory_of_locateFrom h
      rw [hentry] at hfile
      cases hfile
    | directory =>
      rw [locateFrom_enter hhere hname hentry (fun _ h => nomatch h)] at h
      exact .inl ⟨rfl, h⟩
    | link target =>
      cases links with
      | zero =>
        rw [faceAt_eq_link, at?_concat hentries] at hentry
        rw [locateFrom_cons hentries] at h
        simp [hname, hentry] at h
      | succ fewer =>
        rw [locateFrom_link hhere hname hentry] at h
        exact .inr ⟨target, fewer, rfl, rfl, h⟩

/-- All steps of a look-up but the last lead to a directory. -/
theorem exists_leads {root : Node} {links : Nat} {here location : Location} {step : Path.Step}
    (front : List Path.Step)
    (h : locateFrom root true links here (front ++ [step]) = .ok location) :
    ∃ there left, Leads root links here front there left ∧
      locateFrom root true left there [step] = .ok location := by
  match front with
  | [] => exact ⟨here, links, .done (directory_of_locateFrom h), h⟩
  | .stay :: front =>
    have hhere := directory_of_locateFrom h
    rw [List.cons_append, locateFrom_stay hhere] at h
    obtain ⟨there, left, hleads, hlast⟩ := exists_leads front h
    exact ⟨there, left, .stay hhere hleads, hlast⟩
  | .up :: front =>
    have hhere := directory_of_locateFrom h
    rw [List.cons_append, locateFrom_up hhere] at h
    obtain ⟨there, left, hleads, hlast⟩ := exists_leads front h
    exact ⟨there, left, .up hhere hleads, hlast⟩
  | .enter name :: front =>
    have hhere := directory_of_locateFrom h
    obtain ⟨next, rest, hnext⟩ : ∃ next rest, front ++ [step] = next :: rest :=
      List.exists_cons_of_ne_nil (by simp)
    rw [List.cons_append, hnext] at h
    obtain ⟨hname, ⟨hentry, h⟩ | ⟨target, fewer, rfl, hentry, h⟩⟩ := locateFrom_enter_cases h
    · rw [← hnext] at h
      obtain ⟨there, left, hleads, hlast⟩ := exists_leads front h
      exact ⟨there, left, .enter hhere hname hentry hleads, hlast⟩
    · rw [← hnext, ← List.append_assoc] at h
      obtain ⟨there, left, hleads, hlast⟩ := exists_leads (target.steps ++ front) h
      exact ⟨there, left, .follow hhere hname hentry hleads, hlast⟩
termination_by (links, front.length)

theorem locateFrom_enter_last {root : Node} {links : Nat} {here location : Location}
    {name : String} (h : locateFrom root true links here [.enter name] = .ok location) :
    isLongName name = false ∧
      (location = here ++ [name] ∧ (∀ target, root.faceAt location ≠ some (.link target)) ∨
        ∃ target fewer, links = fewer + 1 ∧ root.faceAt (here ++ [name]) = some (.link target) ∧
          locateFrom root true fewer (if target.isAbsolute then [] else here) (Path.steps target) =
            .ok location) := by
  have hhere := directory_of_locateFrom h
  obtain ⟨entries, hentries⟩ := faceAt_eq_directory.1 hhere
  rw [locateFrom_cons hentries] at h
  simp only at h
  split at h
  · cases h
  rename_i hname
  refine ⟨by simpa using hname, ?_⟩
  split at h
  · rename_i target hentry
    cases links with
    | zero => cases h
    | succ fewer =>
      rw [List.append_nil] at h
      refine .inr ⟨target, fewer, rfl, ?_, h⟩
      rw [faceAt_eq_link, at?_concat hentries, hentry]
  · rename_i node hnode hentry
    rw [locateFrom_nil] at h
    cases h
    refine .inl ⟨rfl, ?_⟩
    intro target
    rw [Ne, faceAt_eq_link, at?_concat hentries, hentry]
    intro hsome
    exact hnode target (Option.some.inj hsome)
  · rename_i hentry
    cases h
    refine .inl ⟨rfl, ?_⟩
    intro target
    rw [Ne, faceAt_eq_link, at?_concat hentries, hentry]
    exact fun h => nomatch h

/-- The last step of a look-up ends at a directory, names an entry that is none, or follows a
link. -/
theorem locateFrom_last {root : Node} {links : Nat} {here location : Location}
    {step : Path.Step} (h : locateFrom root true links here [step] = .ok location) :
    root.faceAt location = some .directory ∨ ∃ name, step = .enter name ∧
      (location = here ++ [name] ∨ ∃ target fewer, links = fewer + 1 ∧
        locateFrom root true fewer (if target.isAbsolute then [] else here) (Path.steps target) =
          .ok location) := by
  have hhere := directory_of_locateFrom h
  cases step with
  | stay =>
    rw [locateFrom_stay hhere, locateFrom_nil] at h
    cases h
    exact .inl hhere
  | up =>
    rw [locateFrom_up hhere, locateFrom_nil] at h
    cases h
    exact .inl (faceAt_dropLast hhere)
  | enter name =>
    refine .inr ⟨name, rfl, ?_⟩
    obtain ⟨-, ⟨hlocation, -⟩ | ⟨target, fewer, hlinks, -, hlink⟩⟩ := locateFrom_enter_last h
    · exact .inl hlocation
    · exact .inr ⟨target, fewer, hlinks, hlink⟩

theorem locateFrom_ends {root : Node} {links : Nat} {here location : Location}
    {steps : List Path.Step} (hsteps : steps ≠ [])
    (h : locateFrom root true links here steps = .ok location) :
    root.faceAt location = some .directory ∨
      ∃ parent name, location = parent ++ [name] ∧ root.faceAt parent = some .directory := by
  rw [← List.dropLast_concat_getLast hsteps] at h
  obtain ⟨there, left, hleads, hlast⟩ := exists_leads _ h
  have hleft : left ≤ links := hleads.left_le
  rcases locateFrom_last hlast with hdirectory | ⟨name, -, rfl | ⟨target, fewer, rfl, hlink⟩⟩
  · exact .inl hdirectory
  · exact .inr ⟨there, name, rfl, hleads.directory⟩
  · exact locateFrom_ends target.steps_ne_nil hlink
termination_by links

theorem leads_of_locateFrom {root : Node} {links : Nat} {here there : Location}
    {steps : List Path.Step} (h : locateFrom root true links here steps = .ok there)
    (hthere : root.faceAt there = some .directory) :
    ∃ left, Leads root links here steps there left := by
  rcases List.eq_nil_or_concat steps with rfl | ⟨front, step, rfl⟩
  · rw [locateFrom_nil] at h
    cases h
    exact ⟨links, .done hthere⟩
  rw [List.concat_eq_append] at h ⊢
  obtain ⟨between, middle, hfront, hlast⟩ := exists_leads front h
  have hmiddle : middle ≤ links := hfront.left_le
  have hbetween := hfront.directory
  suffices hback : ∃ left, Leads root middle between [step] there left by
    obtain ⟨left, hback⟩ := hback
    exact ⟨left, hfront.append hback⟩
  cases step with
  | stay =>
    rw [locateFrom_stay hbetween, locateFrom_nil] at hlast
    cases hlast
    exact ⟨middle, .stay hbetween (.done hbetween)⟩
  | up =>
    rw [locateFrom_up hbetween, locateFrom_nil] at hlast
    cases hlast
    exact ⟨middle, .up hbetween (.done hthere)⟩
  | enter name =>
    obtain ⟨hname, ⟨rfl, -⟩ | ⟨target, fewer, rfl, hentry, hlink⟩⟩ := locateFrom_enter_last hlast
    · exact ⟨middle, .enter hbetween hname hthere (.done hthere)⟩
    · obtain ⟨left, hleads⟩ := leads_of_locateFrom hlink hthere
      refine ⟨left, .follow hbetween hname hentry ?_⟩
      rwa [List.append_nil]
termination_by links

theorem locateFrom_unfollowed {root : Node} {links left : Nat} {here there : Location}
    {front : List Path.Step} (h : Leads root links here front there left) {name : String}
    (hname : isLongName name = false) :
    locateFrom root false links here (front ++ [.enter name]) = .ok (there ++ [name]) := by
  induction h with
  | done hhere =>
    obtain ⟨entries, hentries⟩ := faceAt_eq_directory.1 hhere
    rw [List.nil_append, locateFrom_cons hentries]
    simp only [hname, Bool.false_eq_true, if_false]
    split <;> simp [locateFrom_nil]
  | stay hhere _ ih => rw [List.cons_append, locateFrom_stay hhere, ih]
  | up hhere _ ih => rw [List.cons_append, locateFrom_up hhere, ih]
  | enter hhere hshort hentry _ ih =>
    rw [List.cons_append, locateFrom_enter hhere hshort hentry (fun _ h => nomatch h), ih]
  | follow hhere hshort hentry _ ih =>
    obtain ⟨entries, hentries⟩ := faceAt_eq_directory.1 hhere
    rw [faceAt_eq_link, at?_concat hentries] at hentry
    rw [List.cons_append, locateFrom_cons hentries]
    simp only [hshort, hentry, Bool.false_eq_true, if_false]
    rw [if_neg (by simp), ← List.append_assoc]
    exact ih

theorem locate_of_check {tree : FileTree} {path : Path} (h : path.check = .ok ()) (follow : Bool) :
    tree.locate follow path =
      locateFrom tree.root follow maxLinks (tree.origin path) path.steps := by
  rw [locate, h]
  rfl

/-- A path under which a file is read leads to a directory and names an entry there. -/
theorem leads_of_read {tree : FileTree} {path : Path} {bytes : Bytes}
    (h : tree.read path = .ok bytes) :
    ∃ front name there left, path.parts = front ++ [name] ∧ Path.IsName name ∧
      Leads tree.root maxLinks (tree.origin path) path.directorySteps there left := by
  obtain ⟨file, hfile, -⟩ := except_bind_eq_ok h
  obtain ⟨node, hfind, hnode⟩ := except_bind_eq_ok hfile
  obtain ⟨location, hlocate, hfound⟩ := except_bind_eq_ok hfind
  obtain ⟨-, -, hsteps⟩ := except_bind_eq_ok hlocate
  have hface : tree.root.faceAt location ≠ some .directory := by
    intro hdirectory
    obtain ⟨entries, hentries⟩ := faceAt_eq_directory.1 hdirectory
    rw [hentries] at hfound
    cases hfound
    cases hnode
  have hparts := (List.dropLast_concat_getLast path.parts_ne_nil).symm
  rw [Path.steps_eq hparts] at hsteps
  obtain ⟨there, left, hleads, hlast⟩ := exists_leads _ hsteps
  rcases locateFrom_last hlast with hdirectory | ⟨name, hstep, -⟩
  · exact absurd hdirectory hface
  · exact ⟨_, _, there, left, hparts, (Path.isName_of_stepOf hstep).1, hleads⟩

end FileTree

end ImportAtlas
