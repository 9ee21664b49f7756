/-
# Action and metadata schemas

The records a client's action descriptor and client metadata are parsed into, and
the checks made on them once they are parsed. Parsing itself is derived code and
is not part of this module.

Maps keep their entries in the order of their keys. The path checks work on the
characters of a string, as the source does.
-/

import Mathlib.Data.List.Basic
import MbxCache.Protocol

namespace MbxCache.Model

open Foundation

/-! ## Records -/

inductive TaskPhase where
  | normal
  | post
  deriving DecidableEq, Repr

structure TaskRunSingle where
  task : String
  args : List String
  env : List (String × String)
  deriving Repr

structure TaskRunGroup where
  tasks : List String
  deriving Repr

inductive TaskRunEntry where
  | script (text : String)
  | single (entry : TaskRunSingle)
  | group (entry : TaskRunGroup)
  deriving Repr

structure TaskCommandInput where
  command : String
  stdoutHash : String
  stderrHash : String
  deriving Repr

structure TaskAction where
  version : ℕ
  kind : String
  task : String
  phase : TaskPhase
  run : List TaskRunEntry
  args : List String
  shell : Option String
  outputs : List String
  root : String
  sourceHash : String
  dependencyKeys : List String
  environment : List (String × Option String)
  commandInputs : List TaskCommandInput
  vars : List (String × String)
  tools : List String
  os : String
  arch : String
  deriving Repr

inductive TaskOutputStream where
  | stdout
  | stderr
  deriving DecidableEq, Repr

structure TaskOutput where
  stream : TaskOutputStream
  line : String
  deriving Repr

structure TaskMetadata where
  version : ℕ
  kind : String
  taskIdentity : String
  roots : List String
  output : List TaskOutput
  restoredBytes : UInt64
  executionDurationNs : UInt64
  deriving Repr

structure RustcCompiler where
  toolchain : String
  rustcVersion : String
  host : String
  deriving Repr

/-- The digest identifies local input content for the action key. It is not a
reference to a stored blob. -/
structure RustcInput where
  path : String
  digest : Digest
  deriving Repr

structure RustcLinkerIdentity where
  driver : String
  driverVersion : String
  linkerVersion : String
  crtObjects : List (String × Digest)
  sdk : Option String
  deploymentTarget : Option String
  deriving Repr

structure RustcAction where
  version : ℕ
  kind : String
  adapterVersion : ℕ
  compiler : RustcCompiler
  arguments : List String
  environment : List (String × Option String)
  inputs : List RustcInput
  linker : Option RustcLinkerIdentity
  deriving Repr

structure CcCompiler where
  assembler : String
  family : String
  target : String
  versionText : String
  deriving Repr

structure CcInput where
  digest : Digest
  path : String
  deriving Repr

structure CcAction where
  version : ℕ
  kind : String
  adapterVersion : ℕ
  assemblyInputModel : Option ℕ
  compiler : CcCompiler
  arguments : List String
  environment : List (String × Option String)
  inputs : List CcInput
  deriving Repr

inductive BuildScriptInput where
  | missing
  | file (digest : Digest)
  | directory (digest : Digest)
  | symlink (target : String) (referent : BuildScriptInput)
  deriving Repr

structure BuildScriptAction where
  version : ℕ
  kind : String
  binaryAction : Digest
  cargoEnvironment : List (String × Option String)
  environment : List (String × Option String)
  inputs : List (String × BuildScriptInput)
  outDir : Option String
  deriving Repr

structure BuildScriptMetadata where
  version : ℕ
  kind : String
  stdout : Digest
  stderr : Digest
  deriving Repr

/-! ## Strings and maps -/

def validString (value : String) : Bool :=
  !value.toList.contains '\x00'

def validStrings (values : List String) : Bool :=
  values.all validString

def validStringMap (values : List (String × String)) : Bool :=
  values.all fun (key, value) => validString key && validString value

/-- A value that may be absent, checked when it is there. -/
def validOptional (check : String → Bool) (value : Option String) : Bool :=
  value.all check

def validOptionalStringMap (values : List (String × Option String)) : Bool :=
  values.all fun (key, value) =>
    !key.isEmpty && validString key && validOptional validString value

/-- A string that must be there and be printable in a C string. -/
def validName (value : String) : Bool :=
  !value.isEmpty && validString value

/-- The characters before and after the first occurrence of a separator. -/
def splitOnce (separator : Char) : List Char → Option (List Char × List Char)
  | [] => none
  | c :: rest =>
      if c = separator then some ([], rest)
      else (splitOnce separator rest).map fun (before, after) => (c :: before, after)

/-- A path component that names an entry of the directory it is resolved in. -/
def plainComponent (component : List Char) : Bool :=
  !component.isEmpty && component != ['.'] && component != ['.', '.']

/-- A placeholder in braces, alone or followed by a relative path. -/
def validNormalizedPath (path : String) : Bool :=
  match path.toList with
  | '$' :: '{' :: rest =>
      match splitOnce '\x7d' rest with
      | none => false
      | some (placeholder, suffix) =>
          if placeholder.isEmpty || !placeholder.all (fun c => c.isAlphanum || c == '_') then false
          else
            match suffix with
            | [] => true
            | '/' :: suffix =>
                !suffix.isEmpty && !suffix.contains '\\' && !suffix.contains '\x00' &&
                  (suffix.splitOn '/').all plainComponent
            | _ => false
  | _ => false

/-! ## Task actions and metadata -/

def TaskRunEntry.validate : TaskRunEntry → Bool
  | .script text => validString text
  | .single entry =>
      validString entry.task && validStrings entry.args && validStringMap entry.env
  | .group entry => validStrings entry.tasks

def TaskCommandInput.validate (input : TaskCommandInput) : Bool :=
  validString input.command && validString input.stdoutHash && validString input.stderrHash

def TaskAction.validate (action : TaskAction) : Bool :=
  action.version == 1
    && action.kind == "task"
    && validString action.task
    && (action.phase == .normal || action.phase == .post)
    && action.run.all TaskRunEntry.validate
    && validStrings action.args
    && validOptional validString action.shell
    && validStrings action.outputs
    && validString action.root
    && validString action.sourceHash
    && validStrings action.dependencyKeys
    && action.environment.all (fun (key, value) =>
        validString key && validOptional validString value)
    && action.commandInputs.all TaskCommandInput.validate
    && validStringMap action.vars
    && validStrings action.tools
    && validString action.os
    && validString action.arch

def TaskOutput.validate (output : TaskOutput) : Bool :=
  (output.stream == .stdout || output.stream == .stderr) && validString output.line

def TaskMetadata.validate (metadata : TaskMetadata) : Bool :=
  metadata.version == 1
    && metadata.kind == "task"
    && validString metadata.taskIdentity
    && validStrings metadata.roots
    && metadata.output.all TaskOutput.validate

/-! ## Compiler actions -/

/-- Insert each path into a set and stop at the first one already there. The
check of an item runs before its path is inserted. -/
def allDistinct {α : Type} (check : α → Bool) (path : α → String) :
    List String → List α → Bool
  | _, [] => true
  | seen, item :: items =>
      check item && !seen.contains (path item) &&
        allDistinct check path (path item :: seen) items

section Compiler

variable (rules : DigestRules)

def RustcCompiler.validate (compiler : RustcCompiler) : Bool :=
  [compiler.toolchain, compiler.rustcVersion, compiler.host].all validName

def RustcInput.validate (input : RustcInput) : Bool :=
  validNormalizedPath input.path && rules.validate input.digest

def RustcLinkerIdentity.validate (linker : RustcLinkerIdentity) : Bool :=
  [linker.driver, linker.driverVersion, linker.linkerVersion].all validName
    && linker.crtObjects.all (fun (name, digest) => validName name && rules.validate digest)
    && validOptional validName linker.sdk
    && validOptional validName linker.deploymentTarget

def RustcAction.validate (action : RustcAction) : Bool :=
  action.version == 1
    && action.kind == "rustc"
    && decide (action.adapterVersion > 0)
    && action.compiler.validate
    && validStrings action.arguments
    && validOptionalStringMap action.environment
    && !action.inputs.isEmpty
    && allDistinct (RustcInput.validate rules) RustcInput.path [] action.inputs
    && action.linker.all (RustcLinkerIdentity.validate rules)

/-- The assembler of a compiler driver may be empty; the rest may not. -/
def CcCompiler.validate (compiler : CcCompiler) : Bool :=
  validString compiler.assembler
    && [compiler.family, compiler.target, compiler.versionText].all validName

/-- Host paths and include manifests are key inputs the service never reads, so
only their serialized integrity is checked. -/
def CcInput.validate (input : CcInput) : Bool :=
  !input.path.isEmpty && validString input.path && rules.validate input.digest

def CcAction.validate (action : CcAction) : Bool :=
  action.version == 1
    && action.kind == "cc"
    && decide (action.adapterVersion > 0)
    && action.assemblyInputModel.all (· == 1)
    && action.compiler.validate
    && validStrings action.arguments
    && validOptionalStringMap action.environment
    && !action.inputs.isEmpty
    && allDistinct (CcInput.validate rules) CcInput.path [] action.inputs

/-! ## Build scripts -/

/-- A chain of symlinks is followed to 64 referents. -/
def BuildScriptInput.validate (depth : ℕ) : BuildScriptInput → Bool
  | .missing => decide (depth ≤ 64)
  | .file digest | .directory digest => decide (depth ≤ 64) && rules.validate digest
  | .symlink target referent =>
      decide (depth ≤ 64) && (validString target && referent.validate (depth + 1))

def BuildScriptAction.validate (action : BuildScriptAction) : Bool :=
  action.version == 2
    && action.kind == "build-script"
    && rules.validate action.binaryAction
    && validOptionalStringMap action.cargoEnvironment
    && validOptionalStringMap action.environment
    && action.inputs.all (fun (path, input) =>
        validString path && !path.isEmpty && input.validate rules 0)
    && validOptional validString action.outDir

def BuildScriptMetadata.validate (metadata : BuildScriptMetadata) : Bool :=
  metadata.version == 1
    && metadata.kind == "build-script"
    && rules.validate metadata.stdout
    && rules.validate metadata.stderr

end Compiler

end MbxCache.Model
