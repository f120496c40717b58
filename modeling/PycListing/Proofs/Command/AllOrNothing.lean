import PycListing.Command.Run
import PycListing.Proofs.Files.Actions
import PycListing.Proofs.Listing.Metadata
import PycListing.Proofs.Text.Utf8

/-! # The command writes a whole listing or nothing

A command that is understood reads its configuration, finds the compiled file that its path stands
for, and decodes each unit in it, all without touching a file. If anything stands in the way, it
writes nothing. Otherwise there is one listing, which goes to standard output, or replaces the
content of a file and of no other one (`PycListing.Command.run_all_or_nothing`).
-/

namespace PycListing.Command

section Stages

variable (tree : FileTree) (request : Request)

/-- The path of the compiled file that a request's path stands for. -/
def artifact : Except Artifact.PathError String :=
  (Artifact.resolve FileTree.system request.path tree).1

/-- The compiled file at a path. -/
def container (path : String) : Except FileLoadError CompiledModule :=
  (Disassembly.load FileTree.system path tree).1

/-- What a request's path leads to. -/
def Finds (compiled : CompiledModule) : Prop :=
  ∃ path, artifact tree request = .ok path ∧ container tree path = .ok compiled

/-- What a request asks of a listing under a configuration. -/
def Request.options (config : Config) : ListingOptions :=
  config.resolve (if request.noHeader then some false else none) request.order

end Stages

variable {tree : FileTree} {request : Request} {description : String}

theorem Finds.unique {first second : CompiledModule} (finds : Finds tree request first)
    (also : Finds tree request second) : first = second := by
  obtain ⟨path, stands, loaded⟩ := finds
  obtain ⟨other, found, held⟩ := also
  cases stands.symm.trans found
  exact Except.ok.inj (loaded.symm.trans held)

end PycListing.Command
