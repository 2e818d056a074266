import Hcexplorer.Library.Outcome
import Hcexplorer.Wire
import Mathlib.Data.List.Forall2
import Mathlib.Data.List.Enum

/-!
# The choices of a vote

`SSGenVoteChoices` of `txhelpers/txhelpers.go` looks up, for each deployment of the vote's
version, the choice that the vote bits make under its mask. `Vote.VoteIndex` returns -1 for
bits that are no choice, and the result is an index without a check.

The functions of hcd's `stake` package, and `VoteIndex` with what it is documented to return,
are parameters. Of a deployment only its vote is kept.
-/

namespace Hcexplorer.Txhelpers

section Model

/-- `chaincfg.Choice`, a choice with the bits that stand for it. -/
structure Choice where
  id : String
  description : String
  bits : UInt16
deriving DecidableEq, Repr

/-- `chaincfg.Vote`, an agenda with its mask and its choices. -/
structure Vote where
  id : String
  description : String
  mask : UInt16
  choices : List Choice
deriving DecidableEq, Repr

/-- `chaincfg.ConsensusDeployment`, of which only the vote is read. -/
structure ConsensusDeployment where
  vote : Vote
deriving DecidableEq, Repr

/-- `BlockValidation`, the block that a vote is about and whether it is approved. -/
structure BlockValidation where
  hash : Hash
  height : Int64
  validity : Bool
deriving DecidableEq, Repr

/-- `VoteChoice`, what a vote chose on an agenda. -/
structure VoteChoice where
  id : String
  description : String
  mask : UInt16
  voteVersion : UInt32
  voteIndex : Nat
  choiceIdx : Int
  choice : Choice
deriving DecidableEq, Repr

/-- What hcd's packages tell of votes. `voteIndex` is the index of the choice whose bits are
the vote bits under the mask, or -1 if there is none. -/
structure Votes where
  isSSGen : MsgTx → Bool
  ssgenVoteBits : MsgTx → UInt16
  ssgenBlockVotedOn : MsgTx → Except String (Hash × UInt32)
  ssgenVersion : MsgTx → UInt32
  voteIndex : Vote → UInt16 → Int
  voteIndex_eq : ∀ vote bits,
    (voteIndex vote bits = -1 ∧ ∀ choice ∈ vote.choices, choice.bits ≠ bits &&& vote.mask) ∨
      ∃ (i : Nat) (choice : Choice), voteIndex vote bits = i ∧ vote.choices[i]? = some choice ∧
        choice.bits = bits &&& vote.mask

variable (votes : Votes) (deployments : UInt32 → List ConsensusDeployment)

/-- `SSGenVoteBlockValid`, the block that a vote is about, with the vote bits; an error for what
is no vote. -/
def ssgenVoteBlockValid (msgTx : MsgTx) : Except String (BlockValidation × UInt16) :=
  if votes.isSSGen msgTx then
    let ssGenVoteBits := votes.ssgenVoteBits msgTx
    match votes.ssgenBlockVotedOn msgTx with
    | .error err => .error err
    | .ok (blockHash, blockHeight) =>
      .ok (⟨blockHash, blockHeight.toUInt64.toInt64, ssGenVoteBits &&& 1 ≠ 0⟩, ssGenVoteBits)
  else .error "not a vote transaction"

/-- The loop over the deployments from the one at an index on. -/
def voteChoices (voteVersion : UInt32) (voteBits : UInt16) :
    Nat → List ConsensusDeployment → Outcome (List VoteChoice)
  | _, [] => .returned []
  | d, deployment :: rest =>
    let voteAgenda := deployment.vote
    let choiceIndex := votes.voteIndex voteAgenda voteBits
    (indexed voteAgenda.choices choiceIndex).bind fun choice =>
      (voteChoices voteVersion voteBits (d + 1) rest).bind fun choices =>
        .returned (⟨voteAgenda.id, voteAgenda.description, voteAgenda.mask, voteVersion, d, choiceIndex,
          choice⟩ :: choices)

/-- `SSGenVoteChoices`, the validity of the block and the choices on every deployment of the
vote's version. -/
def ssgenVoteChoices (tx : MsgTx) :
    Outcome (Except String (BlockValidation × UInt32 × UInt16 × List VoteChoice)) :=
  match ssgenVoteBlockValid votes tx with
  | .error err => .returned (.error err)
  | .ok (validBlock, voteBits) =>
    let voteVersion := votes.ssgenVersion tx
    (voteChoices votes voteVersion voteBits 0 (deployments voteVersion)).bind fun choices =>
      .returned (.ok (validBlock, voteVersion, voteBits, choices))

end Model

section Law

/-- The choice that vote bits make on the deployment at an index. -/
structure Chosen (voteVersion : UInt32) (voteBits : UInt16) (entry : ConsensusDeployment × Nat)
    (voteChoice : VoteChoice) : Prop where
  id : voteChoice.id = entry.1.vote.id
  description : voteChoice.description = entry.1.vote.description
  mask : voteChoice.mask = entry.1.vote.mask
  voteVersion : voteChoice.voteVersion = voteVersion
  voteIndex : voteChoice.voteIndex = entry.2
  choice : ∃ i : Nat, voteChoice.choiceIdx = i ∧ entry.1.vote.choices[i]? = some voteChoice.choice
  bits : voteChoice.choice.bits = voteBits &&& entry.1.vote.mask

/-- The vote bits under the mask are those of a choice of the deployment. -/
def IsChoice (voteBits : UInt16) (deployment : ConsensusDeployment) : Prop :=
  ∃ choice ∈ deployment.vote.choices, choice.bits = voteBits &&& deployment.vote.mask

variable (votes : Votes) {voteVersion : UInt32} {voteBits : UInt16}

/-- The lookup of bits that are those of a choice returns the index of such a choice. -/
theorem voteIndex_choice {deployment : ConsensusDeployment} (isChoice : IsChoice voteBits deployment) :
    ∃ (i : Nat) (choice : Choice), votes.voteIndex deployment.vote voteBits = i ∧
      deployment.vote.choices[i]? = some choice ∧ choice.bits = voteBits &&& deployment.vote.mask := by
  rcases votes.voteIndex_eq deployment.vote voteBits with ⟨-, unlike⟩ | found
  · obtain ⟨choice, member, same⟩ := isChoice
    exact absurd same (unlike choice member)
  · exact found

/-- The lookup of bits that are those of no choice gives an index that panics. -/
theorem indexed_not_choice {deployment : ConsensusDeployment}
    (notChoice : ¬IsChoice voteBits deployment) :
    indexed deployment.vote.choices (votes.voteIndex deployment.vote voteBits) = .panicked := by
  rcases votes.voteIndex_eq deployment.vote voteBits with ⟨isNone, -⟩ | ⟨i, choice, -, found, same⟩
  · rw [isNone]
    exact indexed_negative _ (by decide)
  · exact absurd ⟨choice, List.mem_of_getElem? found, same⟩ notChoice

/-- The loop returns the choices when the bits are those of a choice on every deployment. -/
theorem voteChoices_returned (voteVersion : UInt32) (d : Nat) {deployments : List ConsensusDeployment}
    (areChoices : ∀ deployment ∈ deployments, IsChoice voteBits deployment) :
    ∃ choices, voteChoices votes voteVersion voteBits d deployments = .returned choices ∧
      List.Forall₂ (Chosen voteVersion voteBits) (deployments.zipIdx d) choices := by
  induction deployments generalizing d with
  | nil => exact ⟨[], rfl, .nil⟩
  | cons deployment rest inductionHypothesis =>
    obtain ⟨i, choice, index, found, same⟩ := voteIndex_choice votes
      (areChoices deployment List.mem_cons_self)
    obtain ⟨choices, returned, chosen⟩ := inductionHypothesis (d + 1)
      fun other member => areChoices other (List.mem_cons_of_mem _ member)
    refine ⟨⟨deployment.vote.id, deployment.vote.description, deployment.vote.mask, voteVersion, d, i,
      choice⟩ :: choices, ?_, ?_⟩
    · simp only [voteChoices, index, indexed_returned found, Outcome.bind_returned, returned]
    · rw [List.zipIdx_cons]
      exact .cons ⟨rfl, rfl, rfl, rfl, rfl, ⟨i, rfl, found⟩, same⟩ chosen

/-- The loop panics when the bits are those of no choice on some deployment. -/
theorem voteChoices_panicked (voteVersion : UInt32) (d : Nat) {deployments : List ConsensusDeployment}
    (notChoices : ¬∀ deployment ∈ deployments, IsChoice voteBits deployment) :
    voteChoices votes voteVersion voteBits d deployments = .panicked := by
  induction deployments generalizing d with
  | nil => exact absurd (fun _ member => absurd member List.not_mem_nil) notChoices
  | cons deployment rest inductionHypothesis =>
    by_cases isChoice : IsChoice voteBits deployment
    · obtain ⟨i, choice, index, found, -⟩ := voteIndex_choice votes isChoice
      have notRest : ¬∀ other ∈ rest, IsChoice voteBits other := fun areChoices =>
        notChoices (List.forall_mem_cons.mpr ⟨isChoice, areChoices⟩)
      simp only [voteChoices, index, indexed_returned found, Outcome.bind_returned,
        inductionHypothesis (d + 1) notRest]
      rfl
    · simp only [voteChoices, indexed_not_choice votes isChoice]
      rfl

/-- The result is an error, or one choice for each deployment of the version in order, each
with the bits of the vote under the mask. -/
def ReturnsChoices (deployments : UInt32 → List ConsensusDeployment) (tx : MsgTx)
    (outcome : Outcome (Except String (BlockValidation × UInt32 × UInt16 × List VoteChoice))) : Prop :=
  ∃ result, outcome = .returned result ∧ ∀ validBlock voteVersion voteBits choices,
    result = .ok (validBlock, voteVersion, voteBits, choices) →
      voteVersion = votes.ssgenVersion tx ∧ voteBits = votes.ssgenVoteBits tx ∧
        List.Forall₂ (Chosen voteVersion voteBits) (deployments voteVersion).zipIdx choices

/-- The vote bits that are returned for a valid vote are those of its transaction. -/
theorem ssgenVoteBlockValid_bits {tx : MsgTx} {validBlock : BlockValidation} {voteBits : UInt16}
    (valid : ssgenVoteBlockValid votes tx = .ok (validBlock, voteBits)) :
    voteBits = votes.ssgenVoteBits tx := by
  unfold ssgenVoteBlockValid at valid
  cases isVote : votes.isSSGen tx with
  | false =>
    rw [isVote, if_neg Bool.false_ne_true] at valid
    cases valid
  | true =>
    rw [isVote, if_pos rfl] at valid
    cases votedOn : votes.ssgenBlockVotedOn tx with
    | error err =>
      rw [votedOn] at valid
      cases valid
    | ok block =>
      rw [votedOn] at valid
      exact (Prod.mk.inj (Except.ok.inj valid)).2.symm

/-- The vote is refused with an error, or its bits are a choice of each deployment of its
version. -/
def BitsAreChoices (deployments : UInt32 → List ConsensusDeployment) (tx : MsgTx) : Prop :=
  (∃ err, ssgenVoteBlockValid votes tx = .error err) ∨
    ∀ deployment ∈ deployments (votes.ssgenVersion tx), IsChoice (votes.ssgenVoteBits tx) deployment

variable {deployments : UInt32 → List ConsensusDeployment} {tx : MsgTx}

/-- Where the bits are choices of every deployment, they are returned. -/
theorem ssgenVoteChoices_returns (areChoices : BitsAreChoices votes deployments tx) :
    ReturnsChoices votes deployments tx (ssgenVoteChoices votes deployments tx) := by
  cases valid : ssgenVoteBlockValid votes tx with
  | error err =>
    refine ⟨.error err, ?_, fun _ _ _ _ failed => by cases failed⟩
    simp only [ssgenVoteChoices, valid]
  | ok block =>
    obtain ⟨validBlock, voteBits⟩ := block
    obtain rfl := ssgenVoteBlockValid_bits votes valid
    rcases areChoices with ⟨err, failed⟩ | areChoices
    · rw [valid] at failed
      cases failed
    · obtain ⟨choices, returned, chosen⟩ :=
        voteChoices_returned votes (votes.ssgenVersion tx) 0 areChoices
      refine ⟨.ok (validBlock, votes.ssgenVersion tx, votes.ssgenVoteBits tx, choices), ?_, ?_⟩
      · simp only [ssgenVoteChoices, valid, returned, Outcome.bind_returned]
      · rintro _ _ _ _ ⟨⟩
        exact ⟨rfl, rfl, chosen⟩

/-- Where the bits are no choice of some deployment, there is a panic. -/
theorem ssgenVoteChoices_panicked (notChoices : ¬BitsAreChoices votes deployments tx) :
    ssgenVoteChoices votes deployments tx = .panicked := by
  cases valid : ssgenVoteBlockValid votes tx with
  | error err => exact absurd (Or.inl ⟨err, valid⟩) notChoices
  | ok block =>
    obtain ⟨validBlock, voteBits⟩ := block
    obtain rfl := ssgenVoteBlockValid_bits votes valid
    have notAll := fun areChoices => notChoices (Or.inr areChoices)
    simp only [ssgenVoteChoices, valid, voteChoices_panicked votes _ 0 notAll]
    rfl

/-- The choices of a vote are returned exactly when the vote is refused with an error or its
bits are a choice of each deployment of its version. -/
theorem ssgenVoteChoices_iff (deployments : UInt32 → List ConsensusDeployment) (tx : MsgTx) :
    ReturnsChoices votes deployments tx (ssgenVoteChoices votes deployments tx) ↔
      BitsAreChoices votes deployments tx := by
  constructor
  · rintro ⟨result, returned, -⟩
    by_contra notChoices
    rw [ssgenVoteChoices_panicked votes notChoices] at returned
    cases returned
  · exact ssgenVoteChoices_returns votes

/-- `VoteIndex` as a search for the first choice with the bits. -/
def findChoice (vote : Vote) (bits : UInt16) : Int :=
  match vote.choices.findIdx? fun choice => choice.bits = bits &&& vote.mask with
  | some i => i
  | none => -1

/-- Every transaction is a vote with all bits of three set. -/
def sevens : Votes where
  isSSGen _ := true
  ssgenVoteBits _ := 7
  ssgenBlockVotedOn _ := .ok (1, 100)
  ssgenVersion _ := 4
  voteIndex := findChoice
  voteIndex_eq vote bits := by
    unfold findChoice
    cases found : vote.choices.findIdx? fun choice => choice.bits = bits &&& vote.mask with
    | none => exact Or.inl ⟨rfl, by simpa using found⟩
    | some i =>
      obtain ⟨inside, same, -⟩ := List.findIdx?_eq_some_iff_getElem.mp found
      exact Or.inr ⟨i, _, rfl, List.getElem?_eq_getElem inside, of_decide_eq_true same⟩

/-- An agenda with two bits and three choices, of version 4. -/
def agenda : Vote :=
  ⟨"sdiffalgorithm", "Change stake difficulty algorithm as defined in DCP0001", 6,
    [⟨"abstain", "abstain voting for change", 0⟩, ⟨"no", "keep the existing algorithm", 2⟩,
      ⟨"yes", "change to the new algorithm", 4⟩]⟩

/-- The vote has both bits of the agenda set, which is no choice: the lookup panics. -/
theorem ssgenVoteChoices_sevens :
    ssgenVoteChoices sevens (fun _ => [⟨agenda⟩]) ⟨1, [], [], 0, 0⟩ = .panicked ∧
      ¬ReturnsChoices sevens (fun _ => [⟨agenda⟩]) ⟨1, [], [], 0, 0⟩
        (ssgenVoteChoices sevens (fun _ => [⟨agenda⟩]) ⟨1, [], [], 0, 0⟩) := by
  have panics : ssgenVoteChoices sevens (fun _ => [⟨agenda⟩]) ⟨1, [], [], 0, 0⟩ = .panicked := by
    decide
  refine ⟨panics, ?_⟩
  rintro ⟨result, returned, -⟩
  rw [panics] at returned
  cases returned

end Law

end Hcexplorer.Txhelpers
