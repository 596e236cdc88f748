import Mathlib.Logic.Relation
import KristaTech.Quorum.Certificate
import KristaTech.Quorum.Guard

/-!
# The signing protocol

Nodes hold masternode keys and sign block proposals with those of their keys that sit in the
quorum of the proposal's parent. A proposal reaches a node as a `PROPOSEBLOCK` message (`main.cpp`)
or is the node's own (`CreateNewBlock` in `miner.cpp`); in both cases a key signs only after
`AllowQuorumSignature` returned true. A `World` is all the nodes together, and a step is one event
at one node, so a run is an arbitrary interleaving.

Signatures are also written to a log that the program does not have: who signed which block when,
and the guard's record that let it pass. The log only grows. It is what a claim about certificates
is stated over: signatures are unforgeable when every valid share is the trace of an entry.

## What is left outside

Whether a proposal is valid, and which coordinator signed it, is part of the message: it is decided
before the guard is reached and the guard sees only the result. Relaying the message and collecting
shares do not sign. A node never restarts: its guard map is never emptied. A key signs at the moment
the guard let it.
-/

namespace KristaTech.Llmq

/-! ### Nodes, events and steps -/

/-- What decides who signs: the quorum on a parent (`GetActiveQuorum`), and the masternode keys each
node can sign with (`GetMasternodePrivKey`). -/
structure SigningEnv (ι : Type) where
  getActiveQuorum : Uint256 → CQuorum
  getMasternodePrivKey : ι → CPubKey → Bool

/-- A signature by one of a node's keys, with the guard's record under which it was made. -/
structure Signed (ι : Type) where
  node : ι
  key : CPubKey
  prevHash : Uint256
  blockHash : Uint256
  nTime : ℤ
  record : SignedProposal
  deriving DecidableEq

structure World (ι : Type) where
  mapSignedProposalByPrev : ι → SignedProposals
  setSeenProposedBlocks : ι → Std.ExtTreeSet Uint256
  /-- The last reading of each node's clock. -/
  clock : ι → ℤ
  /-- Every signature made so far, last one first. -/
  signatures : List (Signed ι)

/-- A block proposal: the block's hash and parent, the coordinator whose signature it carries, and
whether it passed validation. -/
structure Proposal where
  blockHash : Uint256
  hashPrevBlock : Uint256
  signingCoordinator : CPubKey
  fProposalValid : Bool
  deriving DecidableEq

/-- An event at a node, with the node's clock reading. -/
inductive Event (ι : Type)
  /-- A `PROPOSEBLOCK` message. -/
  | proposeBlock (node : ι) (now : ℤ) (proposal : Proposal)
  /-- One turn of the loop in which `CreateNewBlock` signs the node's own proposal with the member
  keys it holds; the guard is asked again for every key, and other threads run between the turns. -/
  | localSign (node : ι) (now : ℤ) (proposal : Proposal) (member : CQuorumMember)

namespace Event

variable {ι : Type}

def node : Event ι → ι
  | proposeBlock n _ _ => n
  | localSign n _ _ _ => n

def now : Event ι → ℤ
  | proposeBlock _ t _ => t
  | localSign _ t _ _ => t

end Event

namespace World

variable {ι : Type} [DecidableEq ι] (env : SigningEnv ι)

/-- The members of the parent's quorum that a node can sign for. -/
def vSigners (n : ι) (prevHash : Uint256) : List CQuorumMember :=
  (env.getActiveQuorum prevHash).members.filter fun m ↦
    env.getMasternodePrivKey n m.pubKeyMasternode

def setSignedProposals (w : World ι) (n : ι) (m : SignedProposals) : World ι :=
  { w with mapSignedProposalByPrev := Function.update w.mapSignedProposalByPrev n m }

/-- Sign with the given members' keys, under a record of the guard. -/
def sign (w : World ι) (n : ι) (now : ℤ) (proposal : Proposal) (record : SignedProposal)
    (signers : List CQuorumMember) : World ι :=
  let signatures := signers.map fun m ↦
    ⟨n, m.pubKeyMasternode, proposal.hashPrevBlock, proposal.blockHash, now, record⟩
  { w with signatures := signatures ++ w.signatures }

def signIfAllowed (w : World ι) (n : ι) (now : ℤ) (proposal : Proposal)
    (signers : List CQuorumMember) : World ι :=
  let (allowed, m) := allowQuorumSignature now proposal.hashPrevBlock proposal.signingCoordinator
    proposal.blockHash (w.mapSignedProposalByPrev n)
  let w := w.setSignedProposals n m
  match allowed, m[proposal.hashPrevBlock]? with
  | true, some record => w.sign n now proposal record signers
  | _, _ => w

/-- A validated proposal is remembered; in a full set, the least other hash makes room for it. -/
def rememberProposal (seen : Std.ExtTreeSet Uint256) (blockHash : Uint256) : Std.ExtTreeSet Uint256 :=
  let seen := seen.insert blockHash
  if 1000 < seen.size then
    match seen.toList.find? (· != blockHash) with
    | some h => seen.erase h
    | none => seen
  else seen

/-- The handler of a `PROPOSEBLOCK` message, from the point where the proposal has been checked. -/
def processProposeBlock (w : World ι) (n : ι) (now : ℤ) (proposal : Proposal) : World ι :=
  -- a block already seen is answered from the cached shares, without signing again
  if w.setSeenProposedBlocks n |>.contains proposal.blockHash then w
  else if !proposal.fProposalValid then w
  else
    let seen := rememberProposal (w.setSeenProposedBlocks n) proposal.blockHash
    let w := { w with setSeenProposedBlocks := Function.update w.setSeenProposedBlocks n seen }
    if (vSigners env n proposal.hashPrevBlock).isEmpty then w
    else w.signIfAllowed n now proposal (vSigners env n proposal.hashPrevBlock)

def handle (w : World ι) : Event ι → World ι
  | .proposeBlock n now proposal => w.processProposeBlock env n now proposal
  | .localSign n now proposal member =>
    if member ∈ vSigners env n proposal.hashPrevBlock then
      w.signIfAllowed n now proposal [member]
    else w

/-- One event: the clock moves to the event's reading, and the node acts. -/
def step (w : World ι) (e : Event ι) : World ι :=
  handle env { w with clock := Function.update w.clock e.node e.now } e

def Step (w w' : World ι) : Prop := ∃ e : Event ι, w.clock e.node ≤ e.now ∧ w' = w.step env e

/-- The nodes as they start: nothing recorded, nothing signed. -/
def start (clock : ι → ℤ) : World ι := ⟨fun _ ↦ ∅, fun _ ↦ ∅, clock, []⟩

def Reachable (w : World ι) : Prop := ∃ clock, Relation.ReflTransGen (Step env) (start clock) w

def run (w : World ι) (es : List (Event ι)) : World ι := es.foldl (step env) w

/-- No event of the list reads a clock that has gone back. -/
def ClocksOk (w : World ι) : List (Event ι) → Prop
  | [] => True
  | e :: es => w.clock e.node ≤ e.now ∧ ClocksOk (w.step env e) es

instance (w : World ι) (es : List (Event ι)) : Decidable (ClocksOk env w es) := by
  induction es generalizing w with
  | nil => exact instDecidableTrue
  | cons e es ih => exact @instDecidableAnd _ _ _ (ih _)

variable {env}

theorem reflTransGen_run {w : World ι} {es : List (Event ι)} (h : ClocksOk env w es) :
    Relation.ReflTransGen (Step env) w (run env w es) := by
  induction es generalizing w with
  | nil => exact Relation.ReflTransGen.refl
  | cons e es ih => exact Relation.ReflTransGen.head ⟨e, h.1, rfl⟩ (ih h.2)

end World

end KristaTech.Llmq
