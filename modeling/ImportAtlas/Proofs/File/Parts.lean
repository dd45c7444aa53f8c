import ImportAtlas.File.Tree
import ImportAtlas.Proofs.Text.Pieces

/-!
# Paths as lists of parts

A path is the same as the list of its parts, which hold no separator. What a
path stands for is said part by part, so an edit of a path is understood once it
is known which parts it changes: another extension changes the last one only,
and the path stays in its directory.
-/

namespace ImportAtlas

namespace Path

def ofParts (parts : List String) : Path :=
  ofLeadAndBody "" parts

theorem ofParts_parts (path : Path) : ofParts path.parts = path := by
  have hparts : path.parts.map String.toList = Text.pieces '/' path.text.toList := by
    simp [parts, Function.comp_def]
  rw [ofParts, ofLeadAndBody, hparts, Text.joinPieces_pieces, String.ofList_toList,
    String.empty_append]

theorem parts_ofParts {parts : List String} (hne : parts ≠ [])
    (h : ∀ part ∈ parts, '/' ∉ part.toList) : (ofParts parts).parts = parts := by
  have hsplit : Text.pieces '/' (Text.joinPieces '/' (parts.map String.toList)) =
      parts.map String.toList := by
    apply Text.pieces_joinPieces
    · simpa using hne
    · simpa using h
  rw [Path.parts, ofParts, ofLeadAndBody, String.empty_append, String.toList_ofList, hsplit]
  simp [Function.comp_def]

theorem slash_notMem_of_mem_parts (path : Path) {part : String} (h : part ∈ path.parts) :
    '/' ∉ part.toList := by
  obtain ⟨piece, hpiece, rfl⟩ := List.mem_map.1 h
  rw [String.toList_ofList]
  exact Text.notMem_of_mem_pieces hpiece

theorem parts_ne_nil (path : Path) : path.parts ≠ [] := by
  simp [parts, Text.pieces_eq_splitOn]

theorem parts_ofParts_concat {path : Path} {front : List String} {name last : String}
    (hparts : path.parts = front ++ [name]) (hlast : '/' ∉ last.toList) :
    (ofParts (front ++ [last])).parts = front ++ [last] := by
  apply parts_ofParts (by simp)
  intro part hpart
  rcases List.mem_append.1 hpart with hfront | hpart
  · apply path.slash_notMem_of_mem_parts
    rw [hparts]
    exact List.mem_append_left _ hfront
  · rw [List.mem_singleton.1 hpart]
    exact hlast

def IsName (part : String) : Prop :=
  isIdle part = false ∧ part ≠ ".."

theorem isName_of_stepOf {part name : String} (h : stepOf part = .enter name) :
    IsName part ∧ name = part := by
  unfold stepOf at h
  split at h
  · cases h
  · rename_i hidle
    split at h
    · cases h
    · rename_i hup
      cases h
      refine ⟨⟨?_, ?_⟩, rfl⟩
      · simpa [isIdle] using hidle
      · simpa using hup

def directorySteps (path : Path) : List Step :=
  (path.parts.dropLast.filter (· != "")).map stepOf

theorem steps_eq {path : Path} {front : List String} {last : String}
    (h : path.parts = front ++ [last]) : path.steps = path.directorySteps ++ [stepOf last] := by
  simp [steps, directorySteps, h]

theorem steps_ne_nil (path : Path) : path.steps ≠ [] := by
  have hlast := List.dropLast_concat_getLast path.parts_ne_nil
  rw [steps_eq hlast.symm]
  exact List.append_ne_nil_of_right_ne_nil _ (List.cons_ne_nil _ _)

theorem filter_parts {path : Path} {name : String} (hlast : path.parts.getLast? ≠ some "")
    (hname : (path.parts.filter (· != "")).getLast?.map stepOf = some (.enter name)) :
    (∃ front, path.parts = front ++ [name]) ∧ stepOf name = .enter name ∧
      (path.parts.filter (· != "")).dropLast.map stepOf = path.directorySteps := by
  have hparts := (List.dropLast_concat_getLast path.parts_ne_nil).symm
  generalize path.parts.getLast path.parts_ne_nil = last at hparts
  have hne : last ≠ "" := by
    intro hempty
    rw [hparts, List.getLast?_concat, hempty] at hlast
    exact hlast rfl
  have hfilter : path.parts.filter (· != "") =
      path.parts.dropLast.filter (· != "") ++ [last] := by
    rw [hparts]
    simp [hne]
  rw [hfilter, List.getLast?_concat] at hname
  have hstep := Option.some.inj hname
  obtain ⟨-, rfl⟩ := isName_of_stepOf hstep
  refine ⟨⟨_, hparts⟩, hstep, ?_⟩
  rw [hfilter, List.dropLast_concat, directorySteps]

theorem ofLeadAndBody_concat (lead : String) (front : List String) (last : String) :
    ofLeadAndBody lead (front ++ [last]) =
      ⟨lead ++ String.ofList ((front.map String.toList).flatMap (· ++ ['/']) ++ last.toList)⟩ := by
  rw [ofLeadAndBody, List.map_append, List.map_singleton, Text.joinPieces_concat]

end Path

end ImportAtlas
