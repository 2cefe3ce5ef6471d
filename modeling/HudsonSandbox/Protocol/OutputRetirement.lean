import HudsonSandbox.Protocol.Output
import HudsonSandbox.Sources.Plan

/-!
# Published output and its retirement

The references of a published pair of streams, and the marker that replaced each object when its
retention ended. The identities of stored objects have the shape that file sources have.
-/

namespace HudsonSandbox.Output
open Checked LiveOutput

structure OutputRef where
  plan : OutputPlan
  etag : String
  objectVersion : Option String
  deriving DecidableEq

def OutputRef.validate (self : OutputRef) : Except InvalidOutput Unit := do
  self.plan.validate
  ensure (∀ value ∈ self.etag :: self.objectVersion.toList, FileSources.ValidIdentity value)
    .invalidOutputMetadata

structure OutputRefs where
  stdout : OutputRef
  stderr : OutputRef
  deriving DecidableEq

def OutputRefs.validate (self : OutputRefs) (owner : OutputOwner) (outputLimit : ℕ) :
    Except InvalidOutput Unit := do
  self.stdout.validate
  self.stderr.validate
  validatePair self.stdout.plan self.stderr.plan owner outputLimit

def OutputRefs.plans (self : OutputRefs) : OutputPlans :=
  { stdout := self.stdout.plan, stderr := self.stderr.plan }

/-- `hash` stands for the hexadecimal SHA-256 of the JSON text of a plan. -/
def OutputPlan.metadataDigest (hash : OutputPlan → String) (self : OutputPlan) :
    Except InvalidOutput String := do
  self.validate
  pure (hash self)

/-- A verified retirement marker and the previous object it replaced. -/
structure OutputRetirement where
  version : ℕ
  planSha256 : String
  previous : Option OutputRef
  markerEtag : String
  markerVersion : Option String
  deriving DecidableEq

def OutputRetirement.validate (hash : OutputPlan → String) (self : OutputRetirement)
    (plan : OutputPlan) : Except InvalidOutput Unit := do
  let digest ← plan.metadataDigest hash
  ensure (self.version = 1 ∧ self.planSha256 = digest) .invalidOutputMetadata
  ensure (∀ value ∈ self.markerEtag :: self.markerVersion.toList, FileSources.ValidIdentity value)
    .invalidOutputMetadata
  match self.previous with
  | none => pure ()
  | some previous =>
    previous.validate
    ensure (previous.plan = plan ∧
      FileSources.compatible previous.objectVersion self.markerVersion = true) .invalidOutputMetadata

end HudsonSandbox.Output
