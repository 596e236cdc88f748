import KristaTech.Primitives.RoundTrip

/-!
# Lists of indexes on the wire

`BlockTransactionsRequest` of `blockencodings.h` asks a peer for some transactions of a block. Their
indexes are sent as differences to the index before. A difference is a length of up to `MAX_SIZE`, an
index a number of 16 bits: what does not fit is cut off when it is read.

So a list of increasing indexes is read back as it was written (`read_serialize_append`), but not every
list that is read is of this form. It is exactly if the differences add up to an index of 16 bits
(`readsCanonically_iff`).
-/

namespace KristaTech

open List Reader

structure BlockTransactionsRequest where
  blockhash : Uint256
  indexes : List UInt16
  deriving DecidableEq, Repr

namespace BlockTransactionsRequest

/-! ### Reading and writing -/

/-- The index at a difference from the one before, cut off to 16 bits. -/
def nextIndex (prev : Option UInt16) (diff : ℕ) : UInt16 :=
  match prev with
  | none => UInt16.ofNat diff
  | some prev => UInt16.ofNat (diff + prev.toNat + 1)

/-- The difference to the index before, in 32 bits without a sign. -/
def difference (prev : Option UInt16) (index : UInt16) : ℕ :=
  match prev with
  | none => index.toNat
  | some prev => (2 ^ 32 + index.toNat - prev.toNat - 1) % 2 ^ 32

def readIndexes : ℕ → Option UInt16 → Reader (List UInt16)
  | 0, _ => pure []
  | n + 1, prev => do
    let diff ← Reader.readCompactSize
    let index := nextIndex prev diff
    let indexes ← readIndexes n (some index)
    return index :: indexes

def writeIndexes : Option UInt16 → List UInt16 → Bytes
  | _, [] => []
  | prev, index :: indexes =>
    Writer.compactSize (difference prev index) ++ writeIndexes (some index) indexes

/-- `Unserialize`. -/
def read : Reader BlockTransactionsRequest := do
  let blockhash ← Reader.readUint256
  let indexes_size ← Reader.readCompactSize
  let indexes ← readIndexes indexes_size none
  return ⟨blockhash, indexes⟩

/-- `Serialize`. -/
def serialize (req : BlockTransactionsRequest) : Bytes :=
  req.blockhash.toBytes ++ Writer.compactSize req.indexes.length ++ writeIndexes none req.indexes

/-! ### The differences -/

def decodeFrom : Option UInt16 → List ℕ → List UInt16
  | _, [] => []
  | prev, diff :: diffs => nextIndex prev diff :: decodeFrom (some (nextIndex prev diff)) diffs

def encodeFrom : Option UInt16 → List UInt16 → List ℕ
  | _, [] => []
  | prev, index :: indexes => difference prev index :: encodeFrom (some index) indexes

theorem length_decodeFrom (prev : Option UInt16) (diffs : List ℕ) :
    (decodeFrom prev diffs).length = diffs.length := by
  induction diffs generalizing prev with
  | nil => rfl
  | cons diff diffs ih => simp [decodeFrom, ih]

theorem length_encodeFrom (prev : Option UInt16) (indexes : List UInt16) :
    (encodeFrom prev indexes).length = indexes.length := by
  induction indexes generalizing prev with
  | nil => rfl
  | cons index indexes ih => simp [encodeFrom, ih]

theorem writeIndexes_eq_flatMap (prev : Option UInt16) (indexes : List UInt16) :
    writeIndexes prev indexes = (encodeFrom prev indexes).flatMap Writer.compactSize := by
  induction indexes generalizing prev with
  | nil => rfl
  | cons index indexes ih => rw [writeIndexes, encodeFrom, ih, flatMap_cons]

variable {prev : Option UInt16} {s rest : Bytes} {indexes : List UInt16}
  {req : BlockTransactionsRequest} {diffs : List ℕ}

theorem readIndexes_eq_some_iff {n : ℕ} : readIndexes n prev s = some (indexes, rest) ↔
      ∃ diffs, Reader.readMany Reader.readCompactSize n s = some (diffs, rest) ∧
        decodeFrom prev diffs = indexes := by
  induction n generalizing prev s indexes with
  | zero =>
    constructor
    · intro h
      obtain ⟨rfl, rfl⟩ := Prod.mk.inj (Option.some.inj h)
      exact ⟨[], rfl, rfl⟩
    · rintro ⟨diffs, h, rfl⟩
      obtain ⟨rfl, rfl⟩ := Prod.mk.inj (Option.some.inj h)
      rfl
  | succ n ih =>
    simp only [readIndexes, Reader.readMany, bind_eq_some_iff]
    constructor
    · rintro ⟨diff, s', hdiff, indexes', s'', hindexes, h⟩
      obtain ⟨rfl, rfl⟩ := Prod.mk.inj (Option.some.inj h)
      obtain ⟨diffs, hdiffs, rfl⟩ := ih.1 hindexes
      exact ⟨diff :: diffs, ⟨diff, s', hdiff, diffs, s'', hdiffs, rfl⟩, rfl⟩
    · rintro ⟨_, ⟨diff, s', hdiff, diffs, s'', hdiffs, h⟩, rfl⟩
      obtain ⟨rfl, rfl⟩ := Prod.mk.inj (Option.some.inj h)
      exact ⟨diff, s', hdiff, _, s'', ih.2 ⟨diffs, hdiffs, rfl⟩, rfl⟩

def after (prev : Option UInt16) : ℕ := prev.elim 0 fun prev ↦ prev.toNat + 1

theorem toNat_nextIndex (prev : Option UInt16) (diff : ℕ) :
    (nextIndex prev diff).toNat = (after prev + diff) % 2 ^ 16 := by
  cases prev with
  | none => simp [nextIndex, after]
  | some prev =>
    simp only [nextIndex, after, UInt16.toNat_ofNat', Option.elim_some]
    congr 1
    omega

theorem difference_eq {index : UInt16} (h : after prev ≤ index.toNat) :
    difference prev index = index.toNat - after prev := by
  have hlt := index.toNat_lt
  cases prev with
  | none => rfl
  | some prev =>
    simp only [after, Option.elim_some] at h ⊢
    simp only [difference]
    omega

theorem difference_lt (prev : Option UInt16) (index : UInt16) : difference prev index < 2 ^ 64 := by
  have hlt := index.toNat_lt
  cases prev with
  | none => simp only [difference]; omega
  | some prev =>
    simp only [difference]
    exact (Nat.mod_lt _ (by decide)).trans (by decide)

def Increasing : ℕ → List UInt16 → Prop
  | _, [] => True
  | n, index :: indexes => n ≤ index.toNat ∧ Increasing (index.toNat + 1) indexes

theorem increasing_iff {n : ℕ} :
    Increasing n indexes ↔ (∀ index ∈ indexes, n ≤ index.toNat) ∧ indexes.Pairwise (· < ·) := by
  induction indexes generalizing n with
  | nil => simp [Increasing]
  | cons index indexes ih =>
    rw [Increasing, ih, forall_mem_cons, pairwise_cons]
    constructor
    · rintro ⟨hle, hlater, hpair⟩
      exact ⟨⟨hle, fun i hi ↦ by have := hlater i hi; omega⟩,
        fun i hi ↦ UInt16.lt_iff_toNat_lt.2 (hlater i hi), hpair⟩
    · rintro ⟨⟨hle, -⟩, hlater, hpair⟩
      exact ⟨hle, fun i hi ↦ UInt16.lt_iff_toNat_lt.1 (hlater i hi), hpair⟩

/-- The number of places that the differences take up, with their indexes. -/
def span (diffs : List ℕ) : ℕ := (diffs.map (· + 1)).sum

/-- **Differences are canonical if and only if they fit**: the indexes increase and have the same
differences again exactly if the last index has 16 bits. -/
theorem canonical_iff_span (prev : Option UInt16) (diffs : List ℕ) (hprev : after prev ≤ 2 ^ 16) :
    Increasing (after prev) (decodeFrom prev diffs) ∧ encodeFrom prev (decodeFrom prev diffs) = diffs ↔
      after prev + span diffs ≤ 2 ^ 16 := by
  induction diffs generalizing prev with
  | nil => simpa [decodeFrom, encodeFrom, Increasing, span] using hprev
  | cons diff diffs ih =>
    set index := nextIndex prev diff with hindex
    have hnat : index.toNat = (after prev + diff) % 2 ^ 16 := toNat_nextIndex prev diff
    have hlt := index.toNat_lt
    have hih := ih (some index) (by simp only [after, Option.elim_some]; omega)
    have hspan : span (diff :: diffs) = diff + 1 + span diffs := by simp [span]
    simp only [after, Option.elim_some] at hih
    rw [decodeFrom, encodeFrom, Increasing, List.cons.injEq, ← hindex, hspan]
    constructor
    · rintro ⟨⟨hle, hincreasing⟩, hdiff, hdiffs⟩
      have := hih.1 ⟨hincreasing, hdiffs⟩
      rw [difference_eq hle] at hdiff
      omega
    · intro hfits
      -- nothing is cut off
      have hexact : index.toNat = after prev + diff := by rw [hnat, Nat.mod_eq_of_lt (by omega)]
      have hle : after prev ≤ index.toNat := by omega
      obtain ⟨hincreasing, hdiffs⟩ := hih.2 (by omega)
      exact ⟨⟨hle, hincreasing⟩, by rw [difference_eq hle]; omega, hdiffs⟩

theorem flatMap_compactSize_inj {ms ns : List ℕ} (hlength : ms.length = ns.length)
    (hms : ∀ m ∈ ms, m < 2 ^ 64) (hns : ∀ n ∈ ns, n < 2 ^ 64)
    (h : ms.flatMap Writer.compactSize = ns.flatMap Writer.compactSize) : ms = ns := by
  induction ms generalizing ns with
  | nil => exact (length_eq_zero_iff.1 hlength.symm).symm
  | cons m ms ih =>
    cases ns with
    | nil => cases hlength
    | cons n ns =>
      rw [flatMap_cons, flatMap_cons] at h
      obtain ⟨rfl, htail⟩ := Writer.compactSize_append_inj (hms m mem_cons_self) (hns n mem_cons_self) h
      rw [ih (Nat.succ.inj hlength) (fun k hk ↦ hms k (mem_cons_of_mem _ hk))
        (fun k hk ↦ hns k (mem_cons_of_mem _ hk)) htail]

theorem lt_of_mem_encodeFrom {diff : ℕ} (h : diff ∈ encodeFrom prev indexes) : diff < 2 ^ 64 := by
  induction indexes generalizing prev with
  | nil => cases h
  | cons index indexes ih =>
    rcases mem_cons.1 h with rfl | h
    · exact difference_lt prev index
    · exact ih h

/-! ### Requests -/

def readDifferences : Reader (List ℕ) := do
  let _ ← Reader.readUint256
  Reader.readVector Reader.readCompactSize

theorem read_eq_some_iff : read s = some (req, rest) ↔
      ∃ diffs s', Reader.readUint256 s = some (req.blockhash, s') ∧
        Reader.readVector Reader.readCompactSize s' = some (diffs, rest) ∧
        decodeFrom none diffs = req.indexes := by
  simp only [read, Reader.readVector, bind_eq_some_iff]
  constructor
  · rintro ⟨blockhash, s₁, hhash, n, s₂, hn, indexes, s₃, hindexes, h⟩
    obtain ⟨rfl, rfl⟩ := Prod.mk.inj (Option.some.inj h)
    obtain ⟨diffs, hdiffs, rfl⟩ := readIndexes_eq_some_iff.1 hindexes
    exact ⟨diffs, s₁, hhash, ⟨n, s₂, hn, hdiffs⟩, rfl⟩
  · rintro ⟨diffs, s₁, hhash, ⟨n, s₂, hn, hdiffs⟩, heq⟩
    refine ⟨req.blockhash, s₁, hhash, n, s₂, hn, req.indexes, rest, ?_, rfl⟩
    exact readIndexes_eq_some_iff.2 ⟨diffs, hdiffs, heq⟩

theorem readDifferences_eq_some_iff : readDifferences s = some (diffs, rest) ↔ ∃ blockhash s',
      Reader.readUint256 s = some (blockhash, s') ∧
        Reader.readVector Reader.readCompactSize s' = some (diffs, rest) :=
  bind_eq_some_iff

theorem eq_append_of_readVector (h : Reader.readVector Reader.readCompactSize s = some (diffs, rest)) :
    s = Writer.vector Writer.compactSize diffs ++ rest := by
  obtain ⟨n, s', hn, hdiffs⟩ := bind_eq_some_iff.1 h
  obtain ⟨hs', rfl⟩ := eq_append_of_readMany (fun _ _ _ h ↦ (eq_append_of_readCompactSize h).1) hdiffs
  rw [(eq_append_of_readCompactSize hn).1, hs', Writer.vector, append_assoc]

theorem serialize_eq (req : BlockTransactionsRequest) : req.serialize =
      req.blockhash.toBytes ++ Writer.vector Writer.compactSize (encodeFrom none req.indexes) := by
  rw [serialize, Writer.vector, length_encodeFrom, writeIndexes_eq_flatMap, append_assoc]

/-- Indexes are written as the differences they were read from only if these are their own. -/
theorem encodeFrom_eq_of_vector_eq (hlength : indexes.length = diffs.length)
    (hdiffs : ∀ diff ∈ diffs, diff ≤ Reader.maxSize)
    (h : Writer.vector Writer.compactSize (encodeFrom none indexes) ++ rest =
      Writer.vector Writer.compactSize diffs ++ rest) : encodeFrom none indexes = diffs := by
  have hlength : (encodeFrom none indexes).length = diffs.length := by
    rw [length_encodeFrom, hlength]
  rw [Writer.vector, Writer.vector, hlength] at h
  exact flatMap_compactSize_inj hlength (fun _ ↦ lt_of_mem_encodeFrom)
    (fun diff hdiff ↦ (hdiffs diff hdiff).trans_lt (by decide))
    (append_cancel_left (append_cancel_right h))

theorem decodeFrom_encodeFrom (h : Increasing (after prev) indexes) :
    decodeFrom prev (encodeFrom prev indexes) = indexes ∧
      ∀ diff ∈ encodeFrom prev indexes, diff < 2 ^ 16 := by
  induction indexes generalizing prev with
  | nil => exact ⟨rfl, nofun⟩
  | cons index indexes ih =>
    obtain ⟨hle, hlater⟩ := h
    have hlt := index.toNat_lt
    have hnext : nextIndex prev (difference prev index) = index := by
      rw [← UInt16.toNat_inj, toNat_nextIndex, difference_eq hle]
      omega
    have hlater : Increasing (after (some index)) indexes := hlater
    obtain ⟨hdecode, hdiffs⟩ := ih hlater
    rw [encodeFrom, decodeFrom, hnext, hdecode]
    refine ⟨rfl, forall_mem_cons.2 ⟨?_, hdiffs⟩⟩
    rw [difference_eq hle]
    omega

/-- **A request with increasing indexes is read back.** -/
theorem read_serialize_append (h : req.indexes.Pairwise (· < ·))
    (hsize : req.indexes.length ≤ Reader.maxSize) (rest : Bytes) :
    read (req.serialize ++ rest) = some (req, rest) := by
  have hincreasing : Increasing (after none) req.indexes :=
    increasing_iff.2 ⟨fun _ _ ↦ Nat.zero_le _, h⟩
  obtain ⟨hdecode, hdiffs⟩ := decodeFrom_encodeFrom hincreasing
  rw [serialize_eq, append_assoc]
  refine read_eq_some_iff.2 ⟨_, _, readUint256_append _ _,
    readVector_append (fun diff hdiff ↦ readCompactSize_append ?_)
      (by rwa [length_encodeFrom]) rest, hdecode⟩
  exact (hdiffs diff hdiff).le.trans (by decide)

/-- A byte string is read as a request with increasing indexes, and writing it again gives the bytes
that were read. -/
def ReadsCanonically (s : Bytes) : Prop :=
  ∀ req rest, read s = some (req, rest) → req.indexes.Pairwise (· < ·) ∧ req.serialize ++ rest = s

/-- **Index lists on the wire are canonical exactly if their differences fit**: with the indexes
themselves they may take up 65536 places. -/
theorem readsCanonically_iff (s : Bytes) : ReadsCanonically s ↔
      ∀ diffs rest, readDifferences s = some (diffs, rest) → (diffs.map (· + 1)).sum ≤ 65536 := by
  have hcanonical (diffs : List ℕ) :
      (decodeFrom none diffs).Pairwise (· < ·) ∧ encodeFrom none (decodeFrom none diffs) = diffs ↔
        (diffs.map (· + 1)).sum ≤ 65536 := by
    have h := canonical_iff_span none diffs (by decide)
    simpa [increasing_iff, after, span] using h
  constructor
  · intro h diffs rest hdiffs
    obtain ⟨blockhash, s', hhash, hvector⟩ := readDifferences_eq_some_iff.1 hdiffs
    obtain ⟨hpairwise, hserialize⟩ := h ⟨blockhash, decodeFrom none diffs⟩ rest
      (read_eq_some_iff.2 ⟨diffs, s', hhash, hvector, rfl⟩)
    refine (hcanonical diffs).1 ⟨hpairwise, ?_⟩
    -- the bytes determine the differences
    rw [serialize_eq, eq_append_of_readUint256 hhash, eq_append_of_readVector hvector,
      append_assoc] at hserialize
    exact encodeFrom_eq_of_vector_eq (length_decodeFrom none diffs) (fun _ ↦ forall_mem_of_readVector
        (fun _ _ _ h ↦ (eq_append_of_readCompactSize h).2) hvector _)
      (append_cancel_left hserialize)
  · intro h req rest hreq
    obtain ⟨diffs, s', hhash, hvector, heq⟩ := read_eq_some_iff.1 hreq
    have hsum := h diffs rest (readDifferences_eq_some_iff.2 ⟨req.blockhash, s', hhash, hvector⟩)
    obtain ⟨hpairwise, hencode⟩ := (hcanonical diffs).2 hsum
    rw [serialize_eq, ← heq, hencode, append_assoc, ← eq_append_of_readVector hvector]
    exact ⟨hpairwise, (eq_append_of_readUint256 hhash).symm⟩

/-- Two indexes, the second at a difference that leads back to the first. -/
def wrappedRequest : Bytes := List.replicate 32 0 ++ [2, 5, 253, 255, 255]

/-- The index 5 is read twice. -/
theorem not_readsCanonically_wrappedRequest : ¬ ReadsCanonically wrappedRequest := by
  intro h
  have hread : read wrappedRequest = some (⟨0, [5, 5]⟩, []) := by decide
  exact absurd (h _ _ hread).1 (by decide)

end BlockTransactionsRequest

end KristaTech
