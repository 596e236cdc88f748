import KristaTech.Validation.CoinUndo

/-!
# Runs of connections and disconnections

From the genesis block on, the active chain grows by `ConnectTip` and shrinks by `DisconnectTip`.
Each makes a new view over the coins of the tip, calls `ConnectBlock` or `DisconnectBlock` with it and
flushes the view (`ChainRun`). How the cache of the tip and the database share the coins between them
is left open: a call sees any view that `Sees` allows in the state. A call that fails leaves the
chain as it is.
-/

namespace KristaTech

variable (E : ValidationEnv)

/-- A block of the active chain, with what disconnecting it needs. -/
structure Link where
  block : CBlock
  pindex : CBlockIndex
  pprev : CBlockIndex
  blockundo : List CTxUndo

/-- The transactions of the blocks, from the first block on. -/
def chainTxs : List Link → List CTransaction
  | [] => []
  | link :: links => chainTxs links ++ link.block.vtx

/-- The active chain above the genesis block, last block first, the unspent coins and the globals. -/
structure ChainState where
  tip : CBlockIndex
  links : List Link
  utxo : Utxo
  node : NodeState

/-- A call of `ConnectBlock` by `ConnectTip`. -/
structure ConnectCall where
  ctx : ChainContext
  block : CBlock
  pindex : CBlockIndex
  view : CCoinsViewCache
  disk : DiskOutcome := {}
  fAlreadyChecked : Bool := false

namespace ConnectCall

variable (c : ConnectCall)

def run (G : NodeState) : NodeState × Except ValidationError Connected :=
  connectBlock E c.ctx G c.block c.pindex c.view c.disk false c.fAlreadyChecked

/-- The block is a block on the tip, in the index; if it counts as checked, it has been checked. -/
structure OnTip (s : ChainState) : Prop where
  tip : c.ctx.tip = some s.tip
  index : c.ctx.mapBlockIndex s.tip.hash = some s.tip
  hash : c.pindex.hash = c.block.getHash E.crypto
  hashPrev : c.pindex.hashPrev = s.tip.hash
  hashPrevBlock : c.block.hashPrevBlock = s.tip.hash
  nHeight : c.pindex.nHeight = s.tip.nHeight + 1
  notGenesis : c.block.getHash E.crypto ≠ E.consensus.hashGenesisBlock
  formChecked : c.block.fChecked = true → FormChecked E c.block

end ConnectCall

def ChainState.connect (s : ChainState) (c : ConnectCall) (G : NodeState) (connected : Connected) : ChainState where
  tip := c.pindex
  links := ⟨c.block, c.pindex, s.tip, connected.blockundo⟩ :: s.links
  utxo := connected.view.utxo
  node := G

theorem ChainState.utxo_connect (s : ChainState) (c : ConnectCall) (G : NodeState)
    (connected : Connected) : (s.connect c G connected).utxo = connected.view.utxo := rfl

/-- The states that can be reached from the genesis block, whose outputs are not stored. Each block
that is connected satisfies `Allows`. -/
inductive ChainRun (Sees : ChainState → CCoinsViewCache → Prop) (Allows : ChainState → CBlock → Prop) :
    ChainState → Prop
  | genesis {tip masternodes burns} : tip.hash = E.consensus.hashGenesisBlock → tip.nHeight = 0 →
    ChainRun Sees Allows ⟨tip, [], Ledger.empty, ⟨masternodes, burns, 0⟩⟩
  | connect {s c G connected} : ChainRun Sees Allows s → c.OnTip E s → Sees s c.view →
    Allows s c.block → c.run E s.node = (G, .ok connected) →
    ChainRun Sees Allows (s.connect c G connected)
  | disconnect {s link links D view G view'} : ChainRun Sees Allows s → s.links = link :: links →
    Sees s view → D.pindex = link.pindex →
    disconnectBlock E D s.node link.block (some link.blockundo) view = (G, .ok (view', true)) →
    ChainRun Sees Allows ⟨link.pprev, links, view'.utxo, G⟩

/-- A view whose flags are true and that has the coins of the tip. -/
structure SeesCoins (s : ChainState) (view : CCoinsViewCache) : Prop where
  coherent : view.Coherent
  utxo : view.utxo = s.utxo

/-! ### Heights -/

def Numbered : List Link → Prop
  | [] => True
  | link :: links => link.pprev.nHeight = links.length ∧ link.pindex.nHeight = links.length + 1 ∧
      Numbered links

section

variable {E} {Sees : ChainState → CCoinsViewCache → Prop} {Allows : ChainState → CBlock → Prop}
  {s : ChainState}

theorem ChainRun.heights (h : ChainRun E Sees Allows s) :
    s.tip.nHeight = s.links.length ∧ Numbered s.links := by
  induction h with
  | genesis _ hheight => exact ⟨hheight, trivial⟩
  | connect _ htip _ _ _ ih =>
    refine ⟨?_, ih.1, by rw [htip.nHeight, ih.1], ih.2⟩
    show _ = ((_ :: _ : List Link).length : ℤ)
    rw [List.length_cons, Nat.cast_succ, ← ih.1]
    exact htip.nHeight
  | disconnect _ hlinks _ _ _ ih =>
    rw [hlinks] at ih
    exact ⟨ih.2.1, ih.2.2.2⟩

theorem ChainRun.mono {Sees' : ChainState → CCoinsViewCache → Prop}
    {Allows' : ChainState → CBlock → Prop} (hsees : ∀ s view, Sees s view → Sees' s view)
    (hallows : ∀ s block, Allows s block → Allows' s block) (h : ChainRun E Sees Allows s) :
    ChainRun E Sees' Allows' s := by
  induction h with
  | genesis hhash hheight => exact .genesis hhash hheight
  | connect _ htip hview hblock hok ih =>
    exact .connect ih htip (hsees _ _ hview) (hallows _ _ hblock) hok
  | disconnect _ hlinks hview hD hok ih => exact .disconnect ih hlinks (hsees _ _ hview) hD hok

end

/-! ### Plain blocks, to run the model with -/

section Plain

open CCoinsViewCache

def plainBlock (hashPrevBlock : Uint256) (vtx : List CTransaction) : CBlock where
  nVersion := 3
  hashPrevBlock := hashPrevBlock
  hashMerkleRoot := 0
  nTime := 0
  nBits := 0
  nNonce := 0
  vtx := vtx

def tipContext (tip : CBlockIndex) : ChainContext where
  mapBlockIndex hash := if hash = tip.hash then some tip else none
  tip := some tip
  contains hash := hash == tip.hash
  isInitialBlockDownload := false
  fReindex := false
  fVerifyingBlocks := false
  fMasternodePingStateInitialized := true

/-- The transactions are connected to a tip, with a view that has nothing in its cache. -/
def plainCall (tip : CBlockIndex) (getCoin : COutPoint → Option Coin) (vtx : List CTransaction) :
    ConnectCall where
  ctx := tipContext tip
  block := plainBlock tip.hash vtx
  pindex := ⟨(plainBlock tip.hash vtx).getHash default, tip.hash, tip.nHeight + 1, 0⟩
  view := .ofBase { getCoin := getCoin, hashBlock := tip.hash }

variable {s : ChainState} {getCoin : COutPoint → Option Coin} {vtx : List CTransaction}

theorem plainCall_seesCoins (h : ∀ o, unspent (getCoin o) = s.utxo o) :
    SeesCoins s (plainCall s.tip getCoin vtx).view := by
  refine ⟨coherent_ofBase _, funext fun o ↦ ?_⟩
  rw [← h, utxo, CCoinsViewCache.getCoin, plainCall, ofBase]
  simp

theorem plainCall_onTip (s : ChainState) (getCoin : COutPoint → Option Coin)
    (vtx : List CTransaction) (h : (plainBlock s.tip.hash vtx).getHash default ≠
      (default : ValidationEnv).consensus.hashGenesisBlock) :
    (plainCall s.tip getCoin vtx).OnTip default s where
  tip := rfl
  index := if_pos rfl
  hash := rfl
  hashPrev := rfl
  hashPrevBlock := rfl
  nHeight := rfl
  notGenesis := h
  formChecked := nofun

def genesisTip : CBlockIndex := ⟨(default : ValidationEnv).consensus.hashGenesisBlock, 0, 0, 0⟩

def genesisState : ChainState := ⟨genesisTip, [], Ledger.empty, emptyNode⟩

end Plain

end KristaTech
