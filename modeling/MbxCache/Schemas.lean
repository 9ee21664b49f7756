/-
# Derived deserializers of the action schemas

What the derived deserializers make of a JSON value, from the declarations of the
schemas: the name and the type of every field, which fields have a default, and
that a member which is no field is refused. The protocol crate's digest is an
object of exactly an algorithm, a hash and a size.

A record nested in another may also be written as the array of its fields. A run
entry is the first of its three forms that reads the value. The kind of a build
script's input says which fields it has; below a symlink the document has been
buffered, and there the kind may also be given by its number.
-/

import MbxCache.Foundation.Deserialize
import MbxCache.Model

namespace MbxCache

open Foundation

def digestFields : List String := ["algorithm", "hash", "size"]

def Digest.deserialize (value : Json) : Option Digest := do
  let members ← value.asObject
  let slot ← slots digestFields (.object members)
  let algorithm ← Read.required Read.string (slot "algorithm")
  let hash ← Read.required Read.string (slot "hash")
  let size ← Read.required Read.u64 (slot "size")
  return { algorithm, hash, size }

namespace Model

/-! ## Task actions -/

/-- A variant without fields is its name, or an object that gives it nothing. -/
def TaskPhase.deserialize : Json → Option TaskPhase
  | .string "normal" | .object [("normal", .null)] => some .normal
  | .string "post" | .object [("post", .null)] => some .post
  | _ => none

def taskRunSingleFields : List String := ["task", "args", "env"]

def TaskRunSingle.deserialize (value : Json) : Option TaskRunSingle := do
  let slot ← slots taskRunSingleFields value
  let task ← Read.required Read.string (slot "task")
  let args ← Read.defaulted [] (Read.list Read.string) (slot "args")
  let env ← Read.defaulted [] (Read.map Read.string) (slot "env")
  return { task, args, env }

def taskRunGroupFields : List String := ["tasks"]

def TaskRunGroup.deserialize (value : Json) : Option TaskRunGroup := do
  let slot ← slots taskRunGroupFields value
  let tasks ← Read.required (Read.list Read.string) (slot "tasks")
  return { tasks }

def TaskRunEntry.deserialize (value : Json) : Option TaskRunEntry :=
  ((Read.string value).map .script).or <|
    ((TaskRunSingle.deserialize value).map .single).or <|
      (TaskRunGroup.deserialize value).map .group

def taskCommandInputFields : List String := ["command", "stdout_hash", "stderr_hash"]

def TaskCommandInput.deserialize (value : Json) : Option TaskCommandInput := do
  let slot ← slots taskCommandInputFields value
  let command ← Read.required Read.string (slot "command")
  let stdoutHash ← Read.required Read.string (slot "stdout_hash")
  let stderrHash ← Read.required Read.string (slot "stderr_hash")
  return { command, stdoutHash, stderrHash }

def taskActionMembers : List String :=
  ["version", "kind", "task", "phase", "run", "args", "shell", "outputs", "root", "source_hash",
    "dependency_keys", "environment", "command_inputs", "vars", "tools", "os", "arch"]

def TaskAction.deserialize (value : Json) : Option TaskAction := do
  let slot ← slots taskActionMembers value
  let version ← Read.required Read.u8 (slot "version")
  let kind ← Read.required Read.string (slot "kind")
  let task ← Read.required Read.string (slot "task")
  let phase ← Read.required TaskPhase.deserialize (slot "phase")
  let run ← Read.required (Read.list TaskRunEntry.deserialize) (slot "run")
  let args ← Read.required (Read.list Read.string) (slot "args")
  let shell ← Read.optional Read.string (slot "shell")
  let outputs ← Read.required (Read.list Read.string) (slot "outputs")
  let root ← Read.required Read.string (slot "root")
  let sourceHash ← Read.required Read.string (slot "source_hash")
  let dependencyKeys ← Read.defaulted [] (Read.list Read.string) (slot "dependency_keys")
  let environment ← Read.required (Read.map (Read.option Read.string)) (slot "environment")
  let commandInputs ←
    Read.defaulted [] (Read.list TaskCommandInput.deserialize) (slot "command_inputs")
  let vars ← Read.required (Read.map Read.string) (slot "vars")
  let tools ← Read.required (Read.list Read.string) (slot "tools")
  let os ← Read.required Read.string (slot "os")
  let arch ← Read.required Read.string (slot "arch")
  return {
    version, kind, task, phase, run, args, shell, outputs, root, sourceHash, dependencyKeys,
    environment, commandInputs, vars, tools, os, arch }

/-! ## Compiler actions -/

def rustcCompilerFields : List String := ["toolchain", "rustc_version", "host"]

def RustcCompiler.deserialize (value : Json) : Option RustcCompiler := do
  let slot ← slots rustcCompilerFields value
  let toolchain ← Read.required Read.string (slot "toolchain")
  let rustcVersion ← Read.required Read.string (slot "rustc_version")
  let host ← Read.required Read.string (slot "host")
  return { toolchain, rustcVersion, host }

def rustcInputFields : List String := ["path", "digest"]

def RustcInput.deserialize (value : Json) : Option RustcInput := do
  let slot ← slots rustcInputFields value
  let path ← Read.required Read.string (slot "path")
  let digest ← Read.required Digest.deserialize (slot "digest")
  return { path, digest }

def rustcLinkerIdentityFields : List String :=
  ["driver", "driver_version", "linker_version", "crt_objects", "sdk", "deployment_target"]

def RustcLinkerIdentity.deserialize (value : Json) : Option RustcLinkerIdentity := do
  let slot ← slots rustcLinkerIdentityFields value
  let driver ← Read.required Read.string (slot "driver")
  let driverVersion ← Read.required Read.string (slot "driver_version")
  let linkerVersion ← Read.required Read.string (slot "linker_version")
  let crtObjects ← Read.defaulted [] (Read.map Digest.deserialize) (slot "crt_objects")
  let sdk ← Read.defaulted none (Read.option Read.string) (slot "sdk")
  let deploymentTarget ← Read.defaulted none (Read.option Read.string) (slot "deployment_target")
  return { driver, driverVersion, linkerVersion, crtObjects, sdk, deploymentTarget }

def rustcActionFields : List String :=
  ["version", "kind", "adapter_version", "compiler", "arguments", "environment", "inputs",
    "linker"]

def RustcAction.deserialize (value : Json) : Option RustcAction := do
  let slot ← slots rustcActionFields value
  let version ← Read.required Read.u8 (slot "version")
  let kind ← Read.required Read.string (slot "kind")
  let adapterVersion ← Read.required Read.u8 (slot "adapter_version")
  let compiler ← Read.required RustcCompiler.deserialize (slot "compiler")
  let arguments ← Read.required (Read.list Read.string) (slot "arguments")
  let environment ← Read.required (Read.map (Read.option Read.string)) (slot "environment")
  let inputs ← Read.required (Read.list RustcInput.deserialize) (slot "inputs")
  let linker ← Read.defaulted none (Read.option RustcLinkerIdentity.deserialize) (slot "linker")
  return { version, kind, adapterVersion, compiler, arguments, environment, inputs, linker }

def ccCompilerFields : List String := ["assembler", "family", "target", "version_text"]

def CcCompiler.deserialize (value : Json) : Option CcCompiler := do
  let slot ← slots ccCompilerFields value
  let assembler ← Read.required Read.string (slot "assembler")
  let family ← Read.required Read.string (slot "family")
  let target ← Read.required Read.string (slot "target")
  let versionText ← Read.required Read.string (slot "version_text")
  return { assembler, family, target, versionText }

def ccInputFields : List String := ["digest", "path"]

def CcInput.deserialize (value : Json) : Option CcInput := do
  let slot ← slots ccInputFields value
  let digest ← Read.required Digest.deserialize (slot "digest")
  let path ← Read.required Read.string (slot "path")
  return { digest, path }

def ccActionFields : List String :=
  ["version", "kind", "adapter_version", "assembly_input_model", "compiler", "arguments",
    "environment", "inputs"]

def CcAction.deserialize (value : Json) : Option CcAction := do
  let slot ← slots ccActionFields value
  let version ← Read.required Read.u8 (slot "version")
  let kind ← Read.required Read.string (slot "kind")
  let adapterVersion ← Read.required Read.u8 (slot "adapter_version")
  let assemblyInputModel ←
    Read.defaulted none (Read.option Read.u8) (slot "assembly_input_model")
  let compiler ← Read.required CcCompiler.deserialize (slot "compiler")
  let arguments ← Read.required (Read.list Read.string) (slot "arguments")
  let environment ← Read.required (Read.map (Read.option Read.string)) (slot "environment")
  let inputs ← Read.required (Read.list CcInput.deserialize) (slot "inputs")
  return {
    version, kind, adapterVersion, assemblyInputModel, compiler, arguments, environment,
    inputs }

/-! ## Build scripts -/

inductive InputKind where
  | missing
  | file
  | directory
  | symlink
  deriving DecidableEq, Repr

def InputKind.deserialize (numbered : Bool) : Json → Option InputKind
  | .string "missing" => some .missing
  | .string "file" => some .file
  | .string "directory" => some .directory
  | .string "symlink" => some .symlink
  | .number (.posInt n) =>
      if numbered then [InputKind.missing, .file, .directory, .symlink][n.toNat]? else none
  | _ => none

/-- The kind's own value: the member of that name, or the first element. -/
def kindOf : Json → Option Json
  | .object members => lookupMember members "kind"
  | .array items => items.head?
  | _ => none

/-- The fields of an input of some kind, the kind itself first. -/
def inputFields : InputKind → List String
  | .missing => ["kind"]
  | .file | .directory => ["kind", "digest"]
  | .symlink => ["kind", "target", "referent"]

def BuildScriptInput.deserialize (numbered : Bool) (value : Json) : Option BuildScriptInput :=
  match (kindOf value).bind (InputKind.deserialize numbered) with
  | none => none
  | some kind =>
      match _hslots : slots (inputFields kind) value with
      | none => none
      | some slot =>
          match kind with
          | .missing => some .missing
          | .file => (Read.required Digest.deserialize (slot "digest")).map .file
          | .directory => (Read.required Digest.deserialize (slot "digest")).map .directory
          | .symlink =>
              match _hreferent : slot "referent" with
              | .present referent => do
                  let target ← Read.required Read.string (slot "target")
                  let referent ← deserialize true referent
                  return .symlink target referent
              | _ => none
termination_by sizeOf value
decreasing_by
  exact Json.sizeOf_lt_of_mem_children (mem_children_of_slots _hslots _hreferent)

/-- What reading an input can give, by the kind found in the document. -/
structure BuildScriptInput.Reading (numbered : Bool) (value : Json) (kind : InputKind)
    (slot : String → Slot) : Prop where
  kindOf : (Model.kindOf value).bind (InputKind.deserialize numbered) = some kind
  slots : slots (inputFields kind) value = some slot

theorem BuildScriptInput.deserialize_cases {numbered : Bool} {value : Json}
    {input : BuildScriptInput} (h : deserialize numbered value = some input) :
    ∃ kind slot, Reading numbered value kind slot ∧
      ((kind = .missing ∧ input = .missing) ∨
        (∃ digest, kind = .file ∧
          Read.required Digest.deserialize (slot "digest") = some digest ∧ input = .file digest) ∨
        (∃ digest, kind = .directory ∧
          Read.required Digest.deserialize (slot "digest") = some digest ∧
          input = .directory digest) ∨
        ∃ target document referent, kind = .symlink ∧ slot "referent" = .present document ∧
          Read.required Read.string (slot "target") = some target ∧
          deserialize true document = some referent ∧ input = .symlink target referent) := by
  rw [deserialize] at h
  split at h
  next => cases h
  next kind hkind =>
    split at h
    next => cases h
    next slot hslots =>
      refine ⟨kind, slot, ⟨hkind, hslots⟩, ?_⟩
      cases kind with
      | missing =>
          injection h with heq
          exact .inl ⟨rfl, heq.symm⟩
      | file =>
          obtain ⟨digest, hdigest, rfl⟩ := Option.map_eq_some_iff.mp h
          exact .inr (.inl ⟨digest, rfl, hdigest, rfl⟩)
      | directory =>
          obtain ⟨digest, hdigest, rfl⟩ := Option.map_eq_some_iff.mp h
          exact .inr (.inr (.inl ⟨digest, rfl, hdigest, rfl⟩))
      | symlink =>
          right
          right
          right
          dsimp only at h
          split at h
          next document hdocument =>
            obtain ⟨target, htarget, h⟩ := exists_of_bind_eq_some h
            obtain ⟨referent, hreferent, h⟩ := exists_of_bind_eq_some h
            injection h with heq
            exact ⟨target, document, referent, rfl, hdocument, htarget, hreferent, heq.symm⟩
          next => cases h

/-- The kind is the field of that name. -/
theorem slot_kind {rest : List String} {value found : Json} {slot : String → Slot}
    (hslots : slots ("kind" :: rest) value = some slot) (hkind : kindOf value = some found) :
    slot "kind" = .present found := by
  cases value with
  | object members =>
      simp only [slots, Option.ite_none_right_eq_some, Option.some.injEq] at hslots
      obtain ⟨_, rfl⟩ := hslots
      have hlookup : members.lookup "kind" = some found := hkind
      rw [Slot.find, hlookup]
  | array items =>
      simp only [slots, Option.ite_none_right_eq_some, Option.some.injEq] at hslots
      obtain ⟨_, rfl⟩ := hslots
      cases items with
      | nil => cases hkind
      | cons first items =>
          injection hkind with heq
          rw [Slot.find, List.zip_cons_cons, List.lookup_cons_self, heq]
  | null | bool _ | number _ | string _ => cases hkind

theorem BuildScriptInput.Reading.kind {numbered : Bool} {value : Json} {kind : InputKind}
    {slot : String → Slot} (h : Reading numbered value kind slot) :
    Read.required (InputKind.deserialize numbered) (slot "kind") = some kind := by
  obtain ⟨found, hfound, hkind⟩ := Option.bind_eq_some_iff.mp h.kindOf
  have hslots := h.slots
  have hslot : slot "kind" = .present found := by
    cases kind <;> exact slot_kind hslots hfound
  rw [hslot]
  exact hkind

def buildScriptActionFields : List String :=
  ["version", "kind", "binary_action", "cargo_environment", "environment", "inputs", "out_dir"]

def BuildScriptAction.deserialize (value : Json) : Option BuildScriptAction := do
  let slot ← slots buildScriptActionFields value
  let version ← Read.required Read.u8 (slot "version")
  let kind ← Read.required Read.string (slot "kind")
  let binaryAction ← Read.required Digest.deserialize (slot "binary_action")
  let cargoEnvironment ←
    Read.required (Read.map (Read.option Read.string)) (slot "cargo_environment")
  let environment ← Read.required (Read.map (Read.option Read.string)) (slot "environment")
  let inputs ← Read.required (Read.map (BuildScriptInput.deserialize false)) (slot "inputs")
  let outDir ← Read.optional Read.string (slot "out_dir")
  return { version, kind, binaryAction, cargoEnvironment, environment, inputs, outDir }

end Model

end MbxCache
