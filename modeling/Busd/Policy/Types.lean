import Busd.Protocol.Types

/-!
# Authorization requests and the two fixed policies

The part of `bus-policy` that the broker calls: a policy is asked about one action of one peer, with
the authenticated identity kept apart from the claimed metadata.
-/

namespace Busd.Policy

open Busd.Protocol

/-- The identity that the operating system vouches for. -/
structure Credentials where
  pid : UInt32
  uid : UInt32
  gid : UInt32
  executable : Option String
  securityLabel : Option String
  cgroup : Option String
  deriving DecidableEq

def Credentials.default : Credentials := ⟨0, 0, 0, none, none, none⟩

inductive Action where
  | connect
  | claimNamespace (ns : Namespace)
  | subscribe (channel : Channel)
  | publish (channel : Channel)
  | sendPeer (peer : PeerId)
  | sendNamespace (ns : Namespace)
  | sendClient (clientId : ClientId)
  | broadcast
  | acknowledge
  | monitor
  | registerDbusName (name : String)
  deriving DecidableEq

structure Request where
  credentials : Credentials
  clientId : Option ClientId
  claimedHeaders : Headers
  action : Action
  deriving DecidableEq

end Busd.Policy

/-- Decides whether an authenticated peer may perform an action. -/
class Busd.Policy (P : Type) where
  permits : P → Busd.Policy.Request → Bool

namespace Busd.Policy

/-- Permits everything; the `--unsafe-allow-all` policy. -/
structure AllowAll where
  deriving DecidableEq

instance : Policy AllowAll := ⟨fun _ _ => true⟩

/-- Ordinary local messaging; the policy used when no policy file is configured. -/
structure SafeDefaults where
  deriving DecidableEq

instance : Policy SafeDefaults where
  permits _ request :=
    match request.action with
    | .broadcast | .monitor | .registerDbusName _ => false
    | _ => true

end Busd.Policy
