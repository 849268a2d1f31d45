import Mathlib
import Kagisecure.Core.Model
import Kagisecure.Library.Fallible
import Kagisecure.Shared.Record

/-!
# What a headless host is given

A bundle is signed by the host's owner and sealed to the host. It carries environments and the grants
over them; importing it replaces everything the host held.

## Main definitions

* `HostGrant.matches_` says whether a request is exactly a grant's command.
* `BundleContents.validate` checks everything a host relies on.
* `openBundle` verifies, opens and validates a bundle.
-/

namespace Kagisecure

namespace Host

/-- One argument of a granted command line. -/
inductive ArgPattern where
  | literal (s : String)
  /-- A full commit id. -/
  | commitSha
  deriving DecidableEq

def ArgPattern.matches_ : ArgPattern → String → Bool
  | literal s, arg => s = arg
  | commitSha, arg => arg.toList.length = 40 &&
      arg.toList.all fun c => ('0' ≤ c && c ≤ '9') || ('a' ≤ c && c ≤ 'f')

/-- What an executable must still be at every release. -/
inductive ExecutablePin where
  | codeSigning (teamId signingId : String)
  | sha256 (hash : List UInt8)
  deriving DecidableEq

structure PinnedExecutable where
  path : String
  pin : ExecutablePin
  deriving DecidableEq

structure GrantLimits where
  totalUses : U32
  /-- Unix seconds. -/
  expiresAt : U64
  deriving DecidableEq

/-- A standing grant for one exact command on one host. -/
structure HostGrant where
  name : String
  environment : String
  /-- Written to the command's standard input, in this order. -/
  variables_ : List String
  executable : PinnedExecutable
  /-- The arguments after the executable, all of them. -/
  args : List ArgPattern
  workingDir : String
  /-- The account the command runs as; the host's own where there is none. -/
  runAs : Option String
  timeoutSecs : U32
  limits : GrantLimits
  createdAt : U64
  deriving DecidableEq

structure BundleVariable where
  name : String
  value : List UInt8
  deriving DecidableEq

structure BundleEnvironment where
  name : String
  variables_ : List BundleVariable
  deriving DecidableEq

structure BundleContents where
  v : U32
  hostName : String
  environments : List BundleEnvironment
  grants : List HostGrant
  deriving DecidableEq

/-- Why a bundle's contents are refused. -/
inductive BundleFault where
  | version (v : U32)
  | environmentTwice (env : String)
  | notVariable (name : String)
  | variableTwice (name env : String)
  | grantName (grant : String)
  | grantTwice (grant : String)
  | noEnvironment (grant env : String)
  | noVariable (grant : String)
  | variableNotCarried (grant name env : String)
  | relativePath (grant : String)
  | notPinned (grant : String)
  | timeout (grant : String)
  | limits (grant : String)
  | account (grant user : String)
  | unused (name env : String)
  deriving DecidableEq

inductive HostError where
  | malformed
  | refused (why : String)
  | badSignature
  | decrypt
  /-- The contents do not decode. -/
  | undecoded
  | contents (fault : BundleFault)
  | noBundle
  /-- The bundle on disk is not the one that was imported. -/
  | notImported
  /-- The host's key, the owner's or a file could not be read or written. -/
  | io
  deriving DecidableEq

/-! ### Grants -/

/-- A local account. -/
structure RunAs where
  uid : U32
  gid : U32
  user : String
  home : String
  deriving DecidableEq

/-- What the host's file system and its accounts say at one moment. -/
structure HostWorld where
  canonicalize : String → Option String
  /-- The hash of a file that can be read. -/
  fileSha256 : String → Option (List UInt8)
  /-- The account of a name, in the account database. -/
  lookup : String → Option RunAs

/-- Why a request is not what its grant names. -/
inductive Mismatch where
  | executable
  | arguments
  | workingDir
  deriving DecidableEq

def Mismatch.asStr : Mismatch → String
  | executable => "EXECUTABLE_MISMATCH"
  | arguments => "ARGUMENTS_MISMATCH"
  | workingDir => "CWD_MISMATCH"

namespace HostGrant

/-- Whether a command line in a directory is exactly this grant's command; else the first mismatch. -/
def matches_ (g : HostGrant) (w : HostWorld) (argv : List String) (cwd : String) :
    Except Mismatch Unit :=
  match argv with
  | [] => .error .executable
  | exe :: args =>
    if exe ≠ g.executable.path then .error .executable
    else if args.length ≠ g.args.length ||
        !((g.args.zip args).all fun (pattern, arg) => pattern.matches_ arg) then .error .arguments
    else
      let resolved := w.canonicalize cwd
      let granted := w.canonicalize g.workingDir
      if resolved = none || resolved ≠ granted || granted ≠ some g.workingDir then .error .workingDir
      else .ok ()

/-- Whether the executable on disk still has the pinned hash. -/
def pinHolds (g : HostGrant) (w : HostWorld) : Bool :=
  match g.executable.pin with
  | .sha256 hash => w.fileSha256 g.executable.path = some hash
  | .codeSigning _ _ => false

end HostGrant

/-! ### Contents -/

def CONTENTS_VERSION : U32 := 1

def MAX_JOB_NAME_CHARS : ℕ := 128

def MAX_RUN_DEADLINE_SECS : U32 := 6 * 60 * 60

def MAX_GRANT_LIFETIME_SECS : U64 := 90 * 24 * 60 * 60

namespace BundleContents

variable (c : BundleContents)

def environment (name : String) : Option BundleEnvironment :=
  c.environments.find? fun e => e.name = name

def grant (name : String) : Option HostGrant := c.grants.find? fun g => g.name = name

/-- Check an environment's variables, after some names were seen. -/
def checkVariables (env : String) : List String → List BundleVariable → Except BundleFault Unit
  | _, [] => .ok ()
  | seen, var :: vars =>
    if !VarName.isValid var.name then .error (.notVariable var.name)
    else if var.name ∈ seen then .error (.variableTwice var.name env)
    else checkVariables env (var.name :: seen) vars

def checkEnvironments : List String → List BundleEnvironment → Except BundleFault Unit
  | _, [] => .ok ()
  | seen, env :: envs =>
    if env.name ∈ seen then .error (.environmentTwice env.name)
    else do
      checkVariables env.name [] env.variables_
      checkEnvironments (env.name :: seen) envs

/-- Check the variables a grant releases. -/
def checkReleased (g : HostGrant) (env : BundleEnvironment) : List String → Except BundleFault Unit
  | [] => .ok ()
  | v :: vs =>
    if env.variables_.any fun ev => ev.name = v then checkReleased g env vs
    else .error (.variableNotCarried g.name v env.name)

/-- Check one grant, after some names were seen. The lifetime is added as the build adds. -/
def checkGrant (seen : List String) (g : HostGrant) : Except BundleFault Unit :=
  if g.name = "" || MAX_JOB_NAME_CHARS < g.name.toList.length ||
      !(g.name.toList.all fun ch => ch.isAlphanum || ch = '-' || ch = '_' || ch = '.') then
    .error (.grantName g.name)
  else if g.name ∈ seen then .error (.grantTwice g.name)
  else
    match c.environment g.environment with
    | none => .error (.noEnvironment g.name g.environment)
    | some env =>
      if g.variables_ = [] then .error (.noVariable g.name)
      else do
        checkReleased g env g.variables_
        if g.executable.path.toList.head? ≠ some '/' || g.workingDir.toList.head? ≠ some '/' then
          .error (.relativePath g.name)
        else if !(match g.executable.pin with
            | .sha256 hash => hash.length = 32
            | .codeSigning _ _ => false) then .error (.notPinned g.name)
        else if g.timeoutSecs = 0 || MAX_RUN_DEADLINE_SECS < g.timeoutSecs then
          .error (.timeout g.name)
        else if g.limits.totalUses = 0 || g.limits.expiresAt ≤ g.createdAt ||
            g.createdAt + MAX_GRANT_LIFETIME_SECS < g.limits.expiresAt then .error (.limits g.name)
        else
          match g.runAs with
          | some user =>
            if user = "" || user.toList.any fun ch => ch = ':' || ch = '/' || ch = '\n' then
              .error (.account g.name user)
            else .ok ()
          | none => .ok ()

def checkGrants : List String → List HostGrant → Except BundleFault Unit
  | _, [] => .ok ()
  | seen, g :: gs => do
    c.checkGrant seen g
    checkGrants (g.name :: seen) gs

/-- Only what some grant releases travels. -/
def checkUsed : Except BundleFault Unit :=
  let unused := c.environments.flatMap fun env =>
    (env.variables_.filter fun var => !(c.grants.any fun g =>
      g.environment = env.name && g.variables_.any fun v => v = var.name)).map fun var =>
        (var.name, env.name)
  match unused with
  | [] => .ok ()
  | (name, env) :: _ => .error (.unused name env)

/-- Check everything a host relies on. -/
def validate : Except BundleFault Unit :=
  if c.v ≠ CONTENTS_VERSION then .error (.version c.v)
  else do
    checkEnvironments [] c.environments
    c.checkGrants [] c.grants
    c.checkUsed

end BundleContents

/-! ### The envelope -/

/-- What of a bundle is signed, beside its author. -/
structure BundleBody where
  host : DeviceKeyId
  sequence : U64
  /-- The payload, sealed to the host. -/
  sealed_ : List UInt8
  deriving DecidableEq

/-- A bundle file: laid out as a bundle, or not. -/
inductive BundleBytes where
  | bundle (author : DeviceKeyId) (body : BundleBody) (signature : Signature)
  | malformed
  deriving DecidableEq

/-- The keys a host has, with what is computed by code outside the repository. -/
structure HostKeys where
  owner : DeviceKeyId
  host : DeviceKeyId
  /-- Whether a signature verifies, strictly, under the owner's public key. -/
  verifyStrict : DeviceKeyId → BundleBody → Signature → Bool
  /-- The payload sealed to the host under a header, if it opens. -/
  openBytes : DeviceKeyId → DeviceKeyId → U64 → List UInt8 → Option (List UInt8)
  /-- The contents a payload encodes. -/
  decode : List UInt8 → Option BundleContents

/-- A bundle that verified, opened and validated. -/
structure Opened where
  sequence : U64
  contents : BundleContents
  deriving DecidableEq

/-- Verify a bundle for the host, with a sequence above another, and open its payload. -/
def verifyAndOpen (keys : HostKeys) (bytes : BundleBytes) (afterSequence : Option U64) :
    Except HostError (U64 × List UInt8) :=
  match bytes with
  | .malformed => .error .malformed
  | .bundle author body signature =>
    if author ≠ keys.owner then
      .error (.refused "it is signed by a device this host does not trust")
    else if !keys.verifyStrict author body signature then .error .badSignature
    else if body.host ≠ keys.host then .error (.refused "it was made for another host")
    else if afterSequence.any fun last => body.sequence ≤ last then
      .error (.refused "it is not newer than the bundle this host already holds")
    else
      match keys.openBytes author body.host body.sequence body.sealed_ with
      | some payload => .ok (body.sequence, payload)
      | none => .error .decrypt

/-- Verify a bundle, open and validate it. -/
def openBundle (keys : HostKeys) (bytes : BundleBytes) (afterSequence : Option U64) :
    Except HostError Opened := do
  let (sequence, payload) ← verifyAndOpen keys bytes afterSequence
  match keys.decode payload with
  | none => .error .undecoded
  | some contents =>
    match contents.validate with
    | .error fault => .error (.contents fault)
    | .ok () => .ok { sequence, contents }

/-- A bundle for this host that its owner signed. -/
def OwnerSigned (keys : HostKeys) (bytes : BundleBytes) (sequence : U64) : Prop :=
  ∃ body signature, bytes = .bundle keys.owner body signature ∧
    keys.verifyStrict keys.owner body signature = true ∧ body.host = keys.host ∧
      body.sequence = sequence

variable {keys : HostKeys} {bytes : BundleBytes} {o : Opened}

/-- What a bundle that verified is. -/
theorem verifyAndOpen_eq_ok {afterSequence : Option U64} {sequence : U64} {payload : List UInt8} :
    verifyAndOpen keys bytes afterSequence = .ok (sequence, payload) ↔
      ∃ body signature, bytes = .bundle keys.owner body signature ∧
        keys.verifyStrict keys.owner body signature = true ∧ body.host = keys.host ∧
        (∀ last, afterSequence = some last → last < body.sequence) ∧
        keys.openBytes keys.owner body.host body.sequence body.sealed_ = some payload ∧
        body.sequence = sequence := by
  rcases bytes with ⟨author, body, signature⟩ | -
  · have hnewer : ¬(afterSequence.any fun last => decide (body.sequence ≤ last)) = true ↔
        ∀ last, afterSequence = some last → last < body.sequence := by
      rcases afterSequence with - | last <;> simp
    rw [verifyAndOpen, Except.guard_eq_ok, Except.guard_eq_ok, Except.guard_eq_ok,
      Except.guard_eq_ok, hnewer]
    constructor
    · rintro ⟨howner, hverify, hhost, hlast, hopen⟩
      obtain rfl := not_not.1 howner
      refine ⟨body, signature, rfl, by simpa using hverify, not_not.1 hhost, hlast, ?_⟩
      split at hopen
      next found heq =>
        obtain ⟨rfl, rfl⟩ := Prod.mk.inj (Except.ok.inj hopen)
        exact ⟨heq, rfl⟩
      next => cases hopen
    · rintro ⟨_, _, heq, hverify, hhost, hlast, hopen, rfl⟩
      obtain ⟨rfl, rfl, rfl⟩ := BundleBytes.bundle.inj heq
      exact ⟨not_not.2 rfl, by simp [hverify], not_not.2 hhost, hlast, by rw [hopen]⟩
  · simp [verifyAndOpen]

theorem openBundle_eq_ok {afterSequence : Option U64} : openBundle keys bytes afterSequence = .ok o ↔
    ∃ payload, verifyAndOpen keys bytes afterSequence = .ok (o.sequence, payload) ∧
      keys.decode payload = some o.contents ∧ o.contents.validate = .ok () := by
  rw [openBundle, Except.bind_eq_ok]
  constructor
  · rintro ⟨⟨sequence, payload⟩, hverified, hrest⟩
    dsimp only at hrest
    split at hrest
    next => cases hrest
    next contents hdecode =>
      split at hrest
      next => cases hrest
      next hvalid =>
        obtain rfl := Except.ok.inj hrest
        exact ⟨payload, hverified, hdecode, hvalid⟩
  · rintro ⟨payload, hverified, hdecode, hvalid⟩
    refine ⟨_, hverified, ?_⟩
    simp only [hdecode, hvalid]

/-- What opens above a sequence opens, and is newer. -/
theorem openBundle_none {afterSequence : Option U64}
    (h : openBundle keys bytes afterSequence = .ok o) : openBundle keys bytes none = .ok o ∧
      ∀ last, afterSequence = some last → last < o.sequence := by
  obtain ⟨payload, hverified, hdecode, hvalid⟩ := openBundle_eq_ok.1 h
  obtain ⟨body, signature, hbytes, hverify, hhost, hlast, hopen, hsequence⟩ :=
    verifyAndOpen_eq_ok.1 hverified
  have hany : verifyAndOpen keys bytes none = .ok (o.sequence, payload) :=
    verifyAndOpen_eq_ok.2 ⟨body, signature, hbytes, hverify, hhost, nofun, hopen, hsequence⟩
  exact ⟨openBundle_eq_ok.2 ⟨payload, hany, hdecode, hvalid⟩, hsequence ▸ hlast⟩

/-- What opens was signed by the owner, for this host. -/
theorem ownerSigned_of_openBundle {afterSequence : Option U64}
    (h : openBundle keys bytes afterSequence = .ok o) : OwnerSigned keys bytes o.sequence := by
  obtain ⟨payload, hverified, -⟩ := openBundle_eq_ok.1 h
  obtain ⟨body, signature, hbytes, hverify, hhost, -, -, hsequence⟩ :=
    verifyAndOpen_eq_ok.1 hverified
  exact ⟨body, signature, hbytes, hverify, hhost, hsequence⟩

end Host

end Kagisecure
