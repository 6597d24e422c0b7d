import IdenGrid.Control.Registrations

/-! # The registration client

`enroll` of the Windows bootstrap: the requests that it makes of the control plane, the messages that
it signs, and what it makes of the answers. The key is the parameter `sign`, which gives the Base64
text of a signature. -/

namespace IdenGrid.Edge.Register

open IdenGrid.Control.Monitor hiding Db
open IdenGrid.Control.Registry IdenGrid.Control.Registrations

/-- What `collect_inventory` finds. -/
structure Inventory where
  machineFingerprint : String
  reportedHostname : String
  osName : String
  cpuCount : ℕ
  memoryTotalBytes : ℕ
  diskTotalBytes : ℕ
  agentVersion : String := "windows-bootstrap/1"
  deriving DecidableEq, Repr

/-- The body of the registration. -/
def createBody (inventory : Inventory) (publicIpv4 publicPem : String) :
    NodeRegistrationCreateBody where
  publicKeyPem := publicPem
  platform := .windows
  machineFingerprint := inventory.machineFingerprint
  reportedHostname := inventory.reportedHostname
  publicIpv4 := publicIpv4
  osName := inventory.osName
  cpuCount := inventory.cpuCount
  memoryTotalBytes := inventory.memoryTotalBytes
  diskTotalBytes := inventory.diskTotalBytes
  agentVersion := inventory.agentVersion

/-- What the client knows once its registration is created. -/
structure Session where
  inventory : Inventory
  publicIpv4 : String
  requestId : String
  challenge : String
  tokenSecret : String
  deriving DecidableEq, Repr

/-- The session after the answer to the registration. -/
def created (inventory : Inventory) (publicIpv4 : String) (requestId challenge token : String) :
    Except String Session :=
  if requestId = "" ∨ challenge = "" ∨ token = "" then
    .error "registration service returned invalid data"
  else
    .ok
      { inventory := inventory
        publicIpv4 := publicIpv4
        requestId := requestId
        challenge := challenge
        tokenSecret := token }

/-- The message of the proof. -/
def Session.message (s : Session) : String :=
  "hermes-node-registration-v1\n" ++ s.requestId ++ "\n" ++ s.challenge ++ "\n" ++
    s.publicIpv4 ++ "\n" ++ s.inventory.machineFingerprint ++ "\n"

/-- The message of the claim. -/
def Session.claimMessage (s : Session) (claimChallenge : String) : String :=
  "hermes-node-claim-v1\n" ++ s.requestId ++ "\n" ++ claimChallenge ++ "\n" ++
    s.publicIpv4 ++ "\n" ++ s.inventory.machineFingerprint ++ "\n"

/-- The body of the proof. -/
def Session.proof (sign : String → String) (s : Session) : SignedBody where
  challenge := s.challenge
  signature := sign s.message

/-- What the client does after an answer about the status. -/
inductive Turn
  | wait
  | claim (body : SignedBody)
  | failed (error : String)
  deriving DecidableEq, Repr

def invalidState : Turn := .failed "registration service returned invalid state"

/-- One round of the polling. -/
def Session.poll (sign : String → String) (s : Session) (state : RegistrationStatus)
    (claimChallenge : Option String) : Turn :=
  match state with
  | .approved =>
    match claimChallenge with
    | some challenge =>
      if challenge.length < 32 then invalidState
      else .claim { challenge := challenge, signature := sign (s.claimMessage challenge) }
    | none => invalidState
  | .rejected => .failed "registration rejected"
  | .expired => .failed "registration expired"
  | .failed => .failed "registration failed"
  | .pendingApproval | .pendingProof => .wait
  | _ => invalidState

/-- **What the client signs is what the server verifies**: for the proof, and for the claim. -/
theorem Session.messages_eq {s : Session} {item : RegistrationRow} (hid : item.id = s.requestId)
    (hip : item.actualPublicIpv4 = s.publicIpv4)
    (hmachine : item.machineFingerprint = s.inventory.machineFingerprint) :
    s.message = serverMessage proofPurpose s.challenge item ∧
      ∀ challenge, s.claimMessage challenge = serverMessage claimPurpose challenge item := by
  simp only [serverMessage, hid, hip, hmachine]
  exact ⟨rfl, fun _ => rfl⟩

/-- **A claim that the client sends** is one for an approved registration, signed for its challenge. -/
theorem Session.poll_claim {sign : String → String} {s : Session} {state : RegistrationStatus}
    {claimChallenge : Option String} {body : SignedBody}
    (h : s.poll sign state claimChallenge = .claim body) :
    state = .approved ∧ claimChallenge = some body.challenge ∧
      body.signature = sign (s.claimMessage body.challenge) := by
  unfold Session.poll at h
  split at h
  · split at h
    · split_ifs at h
      · exact absurd h (by simp [invalidState])
      · obtain rfl := Turn.claim.inj h
        exact ⟨rfl, rfl, rfl⟩
    · exact absurd h (by simp [invalidState])
  all_goals exact absurd h (by simp [invalidState])

end IdenGrid.Edge.Register
