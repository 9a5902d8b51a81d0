import IncludeSweep.Settings

set_option autoImplicit false

/-! # Options

The words of the command line are read from left to right. The first word that is wrong, or that
asks for the version or for help, decides. Every option and flag may be given once. -/

namespace IncludeSweep.CommandLine

structure Options where
  target : Option Path
  buildDir : Option Path
  dryRun : Bool
  verbose : Bool
  json : Bool
  jsonLogs : Bool
  jobs : Option Nat
  scanJobs : Option Nat
  buildTimeout : Option Nat
  scanTimeout : Option Nat
  clangTidy : Option Path
  extensions : Option String
deriving DecidableEq, Repr

inductive Stop where
  | usage
  | version
  | help
deriving DecidableEq, Repr

inductive Flag where
  | dryRun
  | verbose
  | json
  | jsonLogs
deriving DecidableEq, Repr

inductive Setting where
  | buildDir
  | jobs
  | scanJobs
  | buildTimeout
  | scanTimeout
  | clangTidy
  | extensions
deriving DecidableEq, Repr

inductive Switch where
  | flag (flag : Flag)
  | setting (setting : Setting)
  | version
  | help
deriving DecidableEq, Repr

def longSwitch : String → Option Switch
  | "build-dir" => some (.setting .buildDir)
  | "dry-run" => some (.flag .dryRun)
  | "verbose" => some (.flag .verbose)
  | "json" => some (.flag .json)
  | "json-logs" => some (.flag .jsonLogs)
  | "jobs" => some (.setting .jobs)
  | "scan-jobs" => some (.setting .scanJobs)
  | "build-timeout" => some (.setting .buildTimeout)
  | "scan-timeout" => some (.setting .scanTimeout)
  | "clang-tidy" => some (.setting .clangTidy)
  | "ext" => some (.setting .extensions)
  | "version" => some .version
  | "help" => some .help
  | _ => none

def shortSwitch : Char → Option Switch
  | 'b' => some (.setting .buildDir)
  | 'n' => some (.flag .dryRun)
  | 'v' => some (.flag .verbose)
  | 'j' => some (.setting .jobs)
  | 'V' => some .version
  | 'h' => some .help
  | _ => none

namespace Options

def none : Options where
  target := .none
  buildDir := .none
  dryRun := false
  verbose := false
  json := false
  jsonLogs := false
  jobs := .none
  scanJobs := .none
  buildTimeout := .none
  scanTimeout := .none
  clangTidy := .none
  extensions := .none

def raise (o : Options) : Flag → Except Stop Options
  | .dryRun => if o.dryRun then .error .usage else .ok { o with dryRun := true }
  | .verbose => if o.verbose then .error .usage else .ok { o with verbose := true }
  | .json => if o.json then .error .usage else .ok { o with json := true }
  | .jsonLogs => if o.jsonLogs then .error .usage else .ok { o with jsonLogs := true }

def fresh {α : Type} (old : Option α) (read : Option α) : Except Stop α :=
  match old, read with
  | .none, some value => .ok value
  | _, _ => .error .usage

def readPath (text : String) : Option Path :=
  if text = "" then .none else some ⟨text⟩

def set (o : Options) (value : String) : Setting → Except Stop Options
  | .buildDir => (fresh o.buildDir (readPath value)).map fun v => { o with buildDir := some v }
  | .jobs => (fresh o.jobs (Text.readNumber value)).map fun v => { o with jobs := some v }
  | .scanJobs => (fresh o.scanJobs (Text.readNumber value)).map fun v => { o with scanJobs := some v }
  | .buildTimeout =>
    (fresh o.buildTimeout (Text.readNumber value)).map fun v => { o with buildTimeout := some v }
  | .scanTimeout =>
    (fresh o.scanTimeout (Text.readNumber value)).map fun v => { o with scanTimeout := some v }
  | .clangTidy => (fresh o.clangTidy (readPath value)).map fun v => { o with clangTidy := some v }
  | .extensions => (fresh o.extensions (some value)).map fun v => { o with extensions := some v }

def setTarget (o : Options) (word : String) : Except Stop Options :=
  (fresh o.target (readPath word)).map fun v => { o with target := some v }

/-- Reads `--name` or `--name=value`, given without the dashes. Also gives the option that still
needs a value. -/
def readLong (o : Options) (word : List Char) : Except Stop (Options × Option Setting) :=
  let name := String.ofList (word.takeWhile (· != '='))
  match word.dropWhile (· != '='), longSwitch name with
  | [], some (.flag flag) => (o.raise flag).map (·, .none)
  | [], some (.setting setting) => .ok (o, some setting)
  | [], some .version => .error .version
  | [], some .help => .error .help
  | _ :: value, some (.setting setting) => (o.set (String.ofList value) setting).map (·, .none)
  | _, _ => .error .usage

/-- Reads a cluster of one-letter switches. The rest of the word is the value of the first option
among them that takes one. -/
def readCluster (o : Options) : List Char → Except Stop (Options × Option Setting)
  | [] => .ok (o, .none)
  | c :: cs =>
    match shortSwitch c with
    | some (.flag flag) =>
      match o.raise flag with
      | .ok o => readCluster o cs
      | .error stop => .error stop
    | some (.setting setting) =>
      match cs with
      | [] => .ok (o, some setting)
      | '=' :: value => (o.set (String.ofList value) setting).map (·, .none)
      | value => (o.set (String.ofList value) setting).map (·, .none)
    | some .version => .error .version
    | some .help => .error .help
    | .none => .error .usage

def readSwitches (o : Options) (word : String) :
    Option (Except Stop (Options × Option Setting)) :=
  match word.toList with
  | '-' :: '-' :: name => some (o.readLong name)
  | '-' :: c :: cs => some (o.readCluster (c :: cs))
  | _ => .none

def isSwitchLike (word : String) : Bool :=
  match word.toList with
  | '-' :: _ :: _ => true
  | _ => false

def readTargets (o : Options) : List String → Except Stop Options
  | [] => .ok o
  | word :: words =>
    match o.setTarget word with
    | .ok o => readTargets o words
    | .error stop => .error stop

/-- Reads the words of a command line. `awaiting` is an option whose value has to be the next
word. -/
def readWords (o : Options) (awaiting : Option Setting) : List String → Except Stop Options
  | [] => if awaiting.isSome then .error .usage else .ok o
  | word :: words =>
    match awaiting with
    | some setting =>
      if isSwitchLike word then .error .usage
      else
        match o.set word setting with
        | .ok o => readWords o .none words
        | .error stop => .error stop
    | .none =>
      if word = "--" then readTargets o words
      else
        match o.readSwitches word with
        | some (.ok (o, awaiting)) => readWords o awaiting words
        | some (.error stop) => .error stop
        | .none =>
          match o.setTarget word with
          | .ok o => readWords o .none words
          | .error stop => .error stop

def read (words : List String) : Except Stop Options :=
  readWords none .none words

/-- Lays the options over settings. A list of extensions without any is passed over. -/
def applyTo (o : Options) (s : Settings) : Settings :=
  let extensions := (o.extensions.map Settings.readExtensions).getD []
  { s with
    buildDir := o.buildDir.getD s.buildDir
    clangTidy := o.clangTidy.or s.clangTidy
    extensions := if extensions = [] then s.extensions else extensions
    buildJobs := (o.jobs.map (max 1)).getD s.buildJobs
    scanJobs := (o.scanJobs.map (max 1)).getD s.scanJobs
    buildTimeout := o.buildTimeout.getD s.buildTimeout
    scanTimeout := o.scanTimeout.getD s.scanTimeout
    dryRun := s.dryRun || o.dryRun
    verbose := s.verbose || o.verbose }

end Options

end IncludeSweep.CommandLine
