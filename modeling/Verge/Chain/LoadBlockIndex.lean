import Mathlib.Data.List.Sort
import Verge.Chain.BlockIndex

/-!
# Loading the block index

`LoadBlockIndexGuts` reads the entries back from the database and `LoadBlockIndex`
computes again, in the order of their heights, what is not stored.  An entry is
known by the hash of its block, and `addr` says where in memory it was put.
-/

namespace Verge

open Foundation
open scoped CChainState

/-- The checkpoints of the main network that `LoadBlockIndex` looks at. -/
def checkpointIndexData : List (Nat × uint256) :=
  [(0, 0x00000fc63692467faeb20cdb3b53200dc601d75bdfa1001463304cc790d77278),
   (100000, 0x000000000400a93131a94ad193c63faafeb8dfcc0c7d0e6f1c9c2614cb2823eb),
   (200000, 0x000000000010dd127bfe9f6b8c36080c45bcd352151aa0d2a4c79c9eba1e05b6),
   (300000, 0x00000001eeb1cbdf539452ad9ae38c3c7bb481a246dc7464d22bf6272be0bc85),
   (400000, 0x0000000001d45af6613024ad5668bfa4909ac63e2b29c28042013d77a216830d),
   (500000, 0x0000000003700a4e9d81a67036d7647361086527e985cdf764648c5e61d07303),
   (600000, 0x30fa1eab961c99f6222f9925a27136c34ea27182c92e4f8c48ea3a90c7c2eb25),
   (700000, 0x3e4f3319706870bb149d1a976202c2a5e973384d181a600e7be59cbab5b63132),
   (800000, 0xf6b5f222bcc2f4e2439ccf6050d4ea3e9517c3752c3247302f039822ac9cc870),
   (900000, 0xc4d8b4079da888985854eda0200fb57045c2c70b29f10e98543f7c4076129e91),
   (1000000, 0x000000000049eaba3d6c29d9f45bc2a944b46eec005e2b038f1ee924f2f9c029),
   (1100000, 0xc766387a2e0cd6af995ea432518614824fe313e988598ea8b26f58efb99ebcdc),
   (1200000, 0x8f35735055fbc08699daee957ec2c454ddf32a11accb24381d1b2b777dab56f9),
   (1300000, 0xc7ae4450513571d7d5c307a6bdda2ecab5bf9c4321548ab1ea352d445cab28c4),
   (1400000, 0x0f683608995591e3f78b59d1ea7b006bf689a9ea879890d717991aea7c8333bb),
   (1500000, 0xf56cdd06d6eb7b159a7348bcfb918982c1106906be1f13f67629032924105860),
   (1600000, 0x860fadffd552bd1b1c015e7d82e3bf25d8a695ac2658acaf7b171d61592888cd),
   (1700000, 0x000000000008634e0d7beb20188b807eeb7597a6038334ef1385aebe5c4daa33),
   (1800000, 0xfcfc1cb1bb408f3744f9102510c09224065a8d4046ff92e407b059bd4e5502e1),
   (1900000, 0x1033b868e71679e4e8f7e6db2b785707bbc063095b283bbc2c236fcf1c512acc),
   (2000000, 0x8457cf90dd4717a2049e737fc3e518057b0c41d61eb8b2e2a67a1707a4cec5d9),
   (2100000, 0x0000000000006034a0a84252a3de77aea8d955cd90eb7c9f090e38a21d038a42),
   (2200000, 0x00000037f9d28dfe25a6bdf681ec8f51198b0503d084f654fba72ee70f75904a),
   (2300000, 0xe4334379b84be2ac4b2118a15323cb414bedf26a1dfce2c591b33e6dca643b92),
   (2400000, 0x000000000000b9914ebfc5e69fe731572c5f110a9f9679316cb77dd5cd9e247f),
   (2500000, 0xff122f47bff95423f64d2167401192ee336a6c51b0c560afa8a9ea16ee81d886),
   (2600000, 0x20af6c9020b36967944f7dcacf4b7a49ec56c068c681f6170614585abd3de6cf),
   (2700000, 0x49fa4075fa2396bf797818e172b3b5702a39d8318606a0ee01c5d06555e65bf6),
   (3700001, 0x65a6844e9cee118fd45edb78e36ed81eee149a16ccec7d859951a28ef6604cfe),
   (4000000, 0x61dca6a2a662da0fddaa7c19aa95f09d6ffda3c0b33a4613ab3698f25b5b9552),
   (4500000, 0x180f33d62de99ed493700fa7d4607a81ca7c26a96f497670c08191a933ce28a6),
   (4714560, 0x073cbdba83dac29384fdc8b4b07199718cb43997558925dcd4824c1e228971d6),
   (4765728, 0x000000000006781bb672a43ceaa683b8830faa5056cd69d6fc359a98e1e2ac8e),
   (5039226, 0x8ee0be305788218466d9e4e174efcbd3c8a7d1368a1ae044c291e54a3ccf69fc),
   (5296344, 0x65008bb6061b0398bee35cb8713ac90bbfc21808a4961e1edc9e3215c1ace600),
   (5399322, 0x17ae41e30e74dfaf5e2dd3941ef71647171297fd868125f13436b1d4e45425fd),
   (6929661, 0x672aaffe34ac83696cce90a41ca395e07a26951197b343a0ef2f42e8d04b5407),
   (7720646, 0xee75e8bfe611f797bfd7980ca2a3ad88fbcfb2bf1c0eef905e7693e83dea851e),
   (7728562, 0xd45371b7f3a9cd31b8c80eede72c380a92ac532c6777341758d7513823ab3d28),
   (7860645, 0xc6ab28a8260fb3b50195c6891a2f36746a9850cf4869c588d99fef725e077f83)]

structure LoadedIndex where
  pprev : Option uint256
  pskip : Option uint256
  nHeight : Nat
  nFile : Nat
  nDataPos : Nat
  nUndoPos : Nat
  nChainWork : Nat
  nTx : Nat
  nChainTx : Nat
  nStatus : Nat
  nVersion : Int
  hashMerkleRoot : uint256
  nTime : Nat
  nBits : Nat
  nNonce : Nat
  nSequenceId : Int
  nTimeMax : Nat
  deriving DecidableEq, Repr

namespace LoadedIndex

def null : LoadedIndex := ⟨none, none, 0, 0, 0, 0, 0, 0, 0, 0, 0, 0, 0, 0, 0, 0, 0⟩

def failed (entry : LoadedIndex) : Bool := statusHas entry.nStatus BLOCK_FAILED_MASK

def isValid (entry : LoadedIndex) (nUpTo : Nat) : Bool :=
  !entry.failed && decide (nUpTo ≤ entry.nStatus &&& BLOCK_VALID_MASK)

end LoadedIndex

structure LoadState where
  mapBlockIndex : List uint256
  entry : uint256 → LoadedIndex
  setBlockIndexCandidates : List uint256
  mapBlocksUnlinked : List (uint256 × uint256)
  pindexBestInvalid : Option uint256
  pindexBestHeader : Option uint256

namespace LoadState

def empty : LoadState := ⟨[], fun _ => .null, [], [], none, none⟩

def setEntry (m : LoadState) (pindex : uint256) (entry : LoadedIndex) : LoadState :=
  { m with entry := Function.update m.entry pindex entry }

def pointers (m : LoadState) : BlockPointers uint256 where
  pprev i := (m.entry i).pprev
  pskip i := (m.entry i).pskip
  nHeight i := (m.entry i).nHeight

def insertBlockIndex (m : LoadState) (hash : uint256) : Option uint256 × LoadState :=
  if hash = 0 then (none, m)
  else if hash ∈ m.mapBlockIndex then (some hash, m)
  else (some hash, { m with mapBlockIndex := hash :: m.mapBlockIndex })

def loadRecord (m : LoadState) (value : List UInt8) : Except Failure LoadState :=
  match CDiskBlockIndex.read.run value with
  | .error _ => .error (.error "LoadBlockIndexGuts: failed to read value")
  | .ok (diskindex, _) =>
    match m.insertBlockIndex diskindex.hashBlockShared with
    | (none, _) => .error (.error "null pointer")
    | (some pindexNew, m) =>
      let (pprev, m) := m.insertBlockIndex diskindex.hashPrev
      let m := m.setEntry pindexNew
        { m.entry pindexNew with
          pprev
          nHeight := diskindex.nHeight
          nFile := diskindex.nFile
          nDataPos := diskindex.nDataPos
          nUndoPos := diskindex.nUndoPos
          nVersion := diskindex.nVersion
          hashMerkleRoot := diskindex.hashMerkleRoot
          nTime := diskindex.nTime
          nBits := diskindex.nBits
          nNonce := diskindex.nNonce
          nStatus := diskindex.nStatus
          nTx := diskindex.nTx }
      if !checkProofOfWork diskindex.hashPOWShared diskindex.nBits then
        .error (.error "LoadBlockIndexGuts: CheckProofOfWork failed")
      else .ok m

def loadBlockIndexGuts (m : LoadState) (values : List (List UInt8)) : Except Failure LoadState :=
  values.foldlM loadRecord m

def worse (addr : uint256 → Nat) (m : LoadState) (pa pb : uint256) : Bool :=
  if (m.entry pb).nHeight < (m.entry pa).nHeight then false
  else if (m.entry pa).nHeight < (m.entry pb).nHeight then true
  else if (m.entry pa).nSequenceId < (m.entry pb).nSequenceId then false
  else if (m.entry pb).nSequenceId < (m.entry pa).nSequenceId then true
  else decide (addr pb < addr pa)

def checkpointAllows (nHeight : Nat) (hash : uint256) : Bool :=
  match checkpointIndexData.lookup nHeight with
  | none => true
  | some checkpointHash => hash == checkpointHash

def derive (m : LoadState) (pindex : uint256) : LoadedIndex :=
  let entry := m.entry pindex
  let pprev := entry.pprev.map m.entry
  { entry with
    nChainWork :=
      ((pprev.map (·.nChainWork)).getD 0 + getBlockProof entry.nVersion entry.nBits) % 2 ^ 256
    nTimeMax := (pprev.map fun p => max p.nTimeMax entry.nTime).getD entry.nTime
    nChainTx :=
      if 0 < entry.nTx then
        match pprev with
        | some p => if p.nChainTx ≠ 0 then (p.nChainTx + entry.nTx) % 2 ^ 32 else 0
        | none => entry.nTx
      else entry.nChainTx
    nStatus :=
      if !entry.failed && pprev.any (·.failed) then entry.nStatus ||| BLOCK_FAILED_CHILD
      else entry.nStatus }

def process (addr : uint256 → Nat) (m : LoadState) (pindex : uint256) :
    Except Failure LoadState := do
  if !checkpointAllows (m.entry pindex).nHeight pindex then
    throw (.error "Failed while validating POW checks against checkpoints")
  let derived := m.derive pindex
  let m' := m.setEntry pindex derived
  let pskip ← m'.pointers.buildSkip pindex
  let m' := m'.setEntry pindex { derived with pskip }
  let waits := decide (0 < derived.nTx) && derived.pprev.any fun p => (m.entry p).nChainTx == 0
  let candidate := derived.isValid BLOCK_VALID_TRANSACTIONS &&
    (derived.nChainTx != 0 || derived.pprev.isNone)
  let bestInvalid := derived.failed && (m.pindexBestInvalid.all fun best =>
    decide ((m'.entry best).nChainWork < derived.nChainWork))
  let bestHeader := derived.isValid BLOCK_VALID_TREE &&
    m.pindexBestHeader.all fun best => m'.worse addr best pindex
  return { m' with
    mapBlocksUnlinked :=
      if waits then m.mapBlocksUnlinked ++ (derived.pprev.map fun p => (p, pindex)).toList
      else m.mapBlocksUnlinked
    setBlockIndexCandidates :=
      if candidate then m.setBlockIndexCandidates.insert pindex else m.setBlockIndexCandidates
    pindexBestInvalid := if bestInvalid then some pindex else m.pindexBestInvalid
    pindexBestHeader := if bestHeader then some pindex else m.pindexBestHeader }

def ByHeight (addr : uint256 → Nat) (m : LoadState) (a b : uint256) : Prop :=
  (m.entry a).nHeight < (m.entry b).nHeight ∨
    (m.entry a).nHeight = (m.entry b).nHeight ∧ addr a ≤ addr b

instance (addr : uint256 → Nat) (m : LoadState) : DecidableRel (m.ByHeight addr) := fun _ _ =>
  inferInstanceAs (Decidable (_ ∨ _))

def sortedByHeight (addr : uint256 → Nat) (m : LoadState) : List uint256 :=
  m.mapBlockIndex.insertionSort (m.ByHeight addr)

def loadBlockIndex (addr : uint256 → Nat) (values : List (List UInt8)) :
    Except Failure LoadState := do
  let m ← loadBlockIndexGuts empty values
  (m.sortedByHeight addr).foldlM (process addr) m

end LoadState

def CBlockIndex.nStatus (entry : CBlockIndex) : Nat :=
  entry.validity ||| (if entry.haveData then BLOCK_HAVE_DATA else 0) |||
    (if entry.haveUndo then BLOCK_HAVE_UNDO else 0) |||
    (if entry.failedValid then BLOCK_FAILED_VALID else 0) |||
    (if entry.failedChild then BLOCK_FAILED_CHILD else 0)

namespace BlockIndex

variable {ι : Type} {powHash : Algo → List UInt8 → uint256}

def diskIndex (t : HeaderTree ι powHash) (x : BlockIndex ι) (pindex : ι) : CDiskBlockIndex where
  nHeight := (x.links pindex).nHeight
  nStatus := (x.chain.entry pindex).nStatus
  nTx := (x.chain.entry pindex).nTx
  hashBlockShared := t.hash pindex
  hashPOWShared := 0
  nFile := (x.links pindex).nFile
  nDataPos := (x.links pindex).nDataPos
  nUndoPos := (x.links pindex).nUndoPos
  nVersion := (t.header pindex).nVersion
  hashPrev := ((x.links pindex).pprev.map t.hash).getD 0
  hashMerkleRoot := (t.header pindex).hashMerkleRoot
  nTime := (t.header pindex).nTime
  nBits := (t.header pindex).nBits
  nNonce := (t.header pindex).nNonce

def record (t : HeaderTree ι powHash) (x : BlockIndex ι) (pindex : ι) : List UInt8 :=
  (x.diskIndex t pindex).write powHash

end BlockIndex

end Verge
