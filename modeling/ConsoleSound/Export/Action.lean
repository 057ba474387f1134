import ConsoleSound.Export.Error
import ConsoleSound.Path
import ConsoleSound.View
/-! # Exports as lists of actions

An export is the directories and files that it makes, in order, and how it comes out. What
it made before a failure stays made, so an export that fails still has actions, and so has
one that never ends. -/

namespace ConsoleSound

/-- One step of an export. -/
inductive Action where
  /-- Makes a directory and those that it is in, unless they are there. -/
  | makeDirectory (path : Path)
  /-- Makes a file, in place of one that is there. -/
  | writeFile (path : Path) (contents : Bytes)
  /-- Tells of something that was left out. -/
  | report (message : String)
  deriving DecidableEq, Repr

/-- A computation that takes actions. One that never ends takes those that come before the
part without an end. -/
structure Export (α : Type) where
  actions : List Action
  result : Outcome α

namespace Export

/-- An export that does nothing. -/
protected def pure {α : Type} (value : α) : Export α := ⟨[], .ok value⟩

/-- One export after another; the second is left out if the first fails or never ends. -/
protected def bind {α β : Type} (first : Export α) (next : α → Export β) : Export β :=
  match first.result with
  | .ok value => ⟨first.actions ++ (next value).actions, (next value).result⟩
  | .error error => ⟨first.actions, .error error⟩
  | .endless => ⟨first.actions, .endless⟩

instance : Monad Export where
  pure := Export.pure
  bind := Export.bind

@[simp] theorem actions_pure {α : Type} (value : α) : (pure value : Export α).actions = [] := rfl

@[simp] theorem result_pure {α : Type} (value : α) : (pure value : Export α).result = .ok value := rfl

/-- After a success the actions of both exports are taken. -/
theorem bind_of_ok {α β : Type} {first : Export α} {value : α} (next : α → Export β)
    (h : first.result = .ok value) :
    first >>= next = ⟨first.actions ++ (next value).actions, (next value).result⟩ := by
  simp only [bind, Export.bind, h]

/-- After a failure the second export is left out. -/
theorem bind_of_error {α β : Type} {first : Export α} {error : ExportError} (next : α → Export β)
    (h : first.result = .error error) : first >>= next = ⟨first.actions, .error error⟩ := by
  simp only [bind, Export.bind, h]

/-- Behind an export without an end nothing is done. -/
theorem bind_of_endless {α β : Type} {first : Export α} (next : α → Export β)
    (h : first.result = .endless) : first >>= next = ⟨first.actions, .endless⟩ := by
  simp only [bind, Export.bind, h]

/-- Behind an export without a value no action is taken. -/
theorem actions_bind_of_ne_ok {α β : Type} {first : Export α} (next : α → Export β)
    (h : ¬∃ value, first.result = .ok value) : (first >>= next).actions = first.actions := by
  cases hresult : first.result with
  | ok value => exact absurd ⟨value, hresult⟩ h
  | error error => rw [bind_of_error next hresult]
  | endless => rw [bind_of_endless next hresult]

/-- What an export does before a second one is done whatever the second does. -/
theorem exists_actions_bind {α β : Type} (first : Export α) (next : α → Export β) :
    ∃ more, (first >>= next).actions = first.actions ++ more := by
  by_cases h : ∃ value, first.result = .ok value
  · obtain ⟨value, hvalue⟩ := h
    exact ⟨_, by rw [bind_of_ok next hvalue]⟩
  · exact ⟨[], by rw [actions_bind_of_ne_ok next h, List.append_nil]⟩

/-- An export that takes one action. -/
def act (action : Action) : Export Unit := ⟨[action], .ok ()⟩

/-- Makes a directory and those that it is in. -/
def makeDirectory (path : Path) : Export Unit := act (.makeDirectory path)

/-- Makes a file. -/
def writeFile (path : Path) (contents : Bytes) : Export Unit := act (.writeFile path contents)

/-- Tells of something that was left out. -/
def report (message : String) : Export Unit := act (.report message)

/-- An export that fails at once. -/
def fail {α : Type} (error : ExportError) : Export α := ⟨[], .error error⟩

/-- An export that tells of its error instead of failing. -/
def attempt (subject : String) (exported : Export Unit) : Export Unit :=
  match exported.result with
  | .ok () => exported
  | .error error =>
    ⟨exported.actions ++ [.report s!"{subject}: {error.message}"], .ok ()⟩
  | .endless => exported

instance : MonadLift Outcome Export := ⟨fun result => ⟨[], result⟩⟩

end Export

/-! ## The files that are made -/

/-- What a path leads to. -/
inductive FileNode where
  | directory
  | file (contents : Bytes)
  deriving DecidableEq, Repr

/-- The directories and files inside a directory, each with the names that lead to it. -/
structure FileTree where
  nodes : List (List String × FileNode)
  deriving DecidableEq, Repr

namespace FileTree

/-- An empty directory. -/
def empty : FileTree := ⟨[]⟩

/-- What is at a place, if anything. -/
def find? (tree : FileTree) (place : List String) : Option FileNode :=
  (tree.nodes.find? fun node => node.1 = place).map Prod.snd

/-- A tree with something put at a place. -/
def put (tree : FileTree) (place : List String) (node : FileNode) : FileTree :=
  ⟨(place, node) :: tree.nodes.filter fun node => node.1 ≠ place⟩

@[simp] theorem find?_empty (place : List String) : empty.find? place = none := rfl

theorem find?_put_self (tree : FileTree) (place : List String) (node : FileNode) :
    (tree.put place node).find? place = some node := by
  simp [put, find?]

theorem find?_put_of_ne (tree : FileTree) {place other : List String} (node : FileNode)
    (h : other ≠ place) : (tree.put place node).find? other = tree.find? other := by
  have skips : (fun entry : List String × FileNode =>
      !decide (entry.1 = place) && decide (entry.1 = other)) = fun entry => decide (entry.1 = other) := by
    funext entry
    by_cases found : entry.1 = other
    · simp [found, h]
    · simp [found]
  simp [put, find?, Ne.symm h, List.find?_filter, skips]

/-- A tree with a directory at a place, unless something is there. -/
def putDirectory (tree : FileTree) (place : List String) : FileTree :=
  if place = [] ∨ (tree.find? place).isSome then tree else tree.put place .directory

/-- A tree after an action. What lies outside the directory is not seen. -/
def perform (tree : FileTree) : Action → FileTree
  | .makeDirectory path => (path.prefixes.filterMap Path.resolve?).foldl putDirectory tree
  | .writeFile path contents =>
    match path.resolve? with
    | some place => tree.put place (.file contents)
    | none => tree
  | .report _ => tree

/-- The tree that actions make in an empty directory. -/
def ofActions (actions : List Action) : FileTree := actions.foldl perform empty

end FileTree

end ConsoleSound
