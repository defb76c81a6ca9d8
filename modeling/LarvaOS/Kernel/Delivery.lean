import LarvaOS.Kernel.Descriptors
import LarvaOS.Kernel.Loading
import LarvaOS.Library.Simulation

/-!
# Reading a file in pieces

Successive calls of `Read` on one descriptor deliver the file in pieces.  `ReadRawData` fetches
as many clusters as the size of the request needs, but copies from the offset of the position
in the first cluster on.  `Covered` says that the request ends in the clusters that are
fetched.  While all requests are covered, the bytes that were delivered are the first bytes of
the file, whatever else the system does in between; otherwise bytes are delivered that the
temporary page held before.
-/

namespace LarvaOS

open FileSystem

variable {image : Image} {k k' : Kernel} {q : Queues} {L : Layout} {xs : List ℕ} {a c d n : ℕ}
  {op : Operation}

/-- The byte that the current process finds at a virtual address. -/
def Kernel.userByte (k : Kernel) (v : ℕ) : Option UInt8 :=
  (walk k.memory k.scheduler.cr3 v).map (fun t => k.memory.bytes (phyToVir t.physical))

/-- The bytes that the current process finds from a virtual address on. -/
def Kernel.userBytes (k : Kernel) (v n : ℕ) : List (Option UInt8) :=
  (List.range n).map (fun i => k.userByte (v + i))

/-- The first bytes of a file that is stored in consecutive clusters. -/
def FileSystem.fileBytes (files : FileSystem) (start n : ℕ) : List (Option UInt8) :=
  (List.range n).map (fun o => some (files.fileByte start o))

/-- The clusters of a file have numbers of 16 bits. -/
structure FileSystem.StoredAt (files : FileSystem) (start fileSize : ℕ) : Prop where
  lower : startClusterIndex ≤ start
  upper : start + fileSize ⌈/⌉ files.bpb.getBytesPerCluster < 2 ^ 16
  fileSize : fileSize < 2 ^ 32

/-- The request does not wrap around, and the part of it that the file has is empty, or ends in
the clusters that are fetched. -/
def FileSystem.Covered (files : FileSystem) (position fileSize size : ℕ) : Prop :=
  let rest := min size (fileSize - position)
  position + size < 2 ^ 32 ∧ (rest = 0 ∨ position % files.bpb.getBytesPerCluster + rest
    ≤ rest ⌈/⌉ files.bpb.getBytesPerCluster * files.bpb.getBytesPerCluster)

/-- The kernel, and the bytes that were delivered from a descriptor. -/
structure Stream where
  kernel : Kernel
  delivered : List (Option UInt8)

/-- The bytes that an operation delivers from a descriptor. -/
def Kernel.deliver (image : Image) (d : ℕ) (op : Operation) (k : Kernel) : List (Option UInt8) :=
  match op with
  | .readFile fd buffer size =>
      if (fileIndex fd).bind (k.process k.currentProc).file = some d then
        match readFile image k.currentProc fd buffer size k with
        | some (ret, k') => k'.userBytes buffer ret.toNat
        | none => []
      else []
  | _ => []

/-- A step of the system, recorded. -/
def Stream.step (image : Image) (d : ℕ) (op : Operation) (s : Stream) : Option Stream :=
  (s.kernel.step image op).map (fun k' =>
    { kernel := k', delivered := s.delivered ++ s.kernel.deliver image d op })

/-- The descriptor is open, and the size of a read from it is not negative. -/
structure Requested (d : ℕ) (op : Operation) (k : Kernel) : Prop where
  linked : (k.files.fdTable d).fcb ≠ none
  size : ∀ fd buffer size, op = .readFile fd buffer size → k.Reads op d →
    0 ≤ size ∧ size < 2 ^ 31

/-- The operations in a run that reads from a descriptor. -/
def Stream.Requested (image : Image) (d : ℕ) (op : Operation) (s : Stream) : Prop :=
  Allowed op s.kernel ∧ Fits image op s.kernel ∧ LarvaOS.Requested d op s.kernel

/-- A read from the descriptor is covered. -/
def Stream.Covered (d : ℕ) (op : Operation) (s : Stream) : Prop :=
  ∀ fd buffer size c, op = .readFile fd buffer size → s.kernel.Reads op d →
    (s.kernel.files.fdTable d).fcb = some c →
    s.kernel.files.Covered (s.kernel.files.fdTable d).position
      (s.kernel.files.fcbTable c).fileSize size.toNat

/-- The operations in a run in which the reads from a descriptor are covered. -/
def Stream.Ok (image : Image) (d : ℕ) (op : Operation) (s : Stream) : Prop :=
  s.Requested image d op ∧ s.Covered d op

/-! ### One read -/

/-- The user page of the current process. -/
theorem Owned.userByte (h : Owned image k xs L)
    (hq : Queued k.scheduler q (some k.currentProc) none) (hidle : k.currentProc ≠ idleSlot)
    {v : ℕ} (hv : InUserPage v) :
  k.userByte v
    = some (k.memory.bytes ((L.space k.currentProc).page + (v - userVirtualAddressBase)))
  := by
  have hlive := hq.live_current hidle
  unfold Kernel.userByte
  rw [h.pageMapRegister hq hidle, (h.space _ hlive).walk_user h.kernelEnd.le (h.space_isPage hlive) hv,
    Option.map_some, UserSpace.phyToVir_user (h.space_isPage hlive) hv]

section Read

variable {fd size : Int} {buffer : ℕ} {i : Fin processMaximumFileDescriptor}

/-- What `Read` delivers: the bytes of the file in the clusters that were fetched, and then the
bytes that the temporary page held before. -/
theorem readFile_spec
    (h : Owned image k (a :: xs) L) (hq : Queued k.scheduler q (some k.currentProc) none)
    (hidle : k.currentProc ≠ idleSlot) (hvolume : Volume k.files) (hi : fileIndex fd = some i)
    (hd : (k.process k.currentProc).file i = some d) (hc : (k.files.fdTable d).fcb = some c)
    (hlo : 0 ≤ size) (hhi : size < 2 ^ 31) (hfits : ReadFits k.currentProc fd buffer size k)
    (hsum : (k.files.fdTable d).position + size.toNat < 2 ^ 32)
    (hpos : (k.files.fdTable d).position ≤ (k.files.fcbTable c).fileSize)
    (hstored : k.files.StoredAt (k.files.fcbTable c).startCluster (k.files.fcbTable c).fileSize)
    (hn : n = min size.toNat ((k.files.fcbTable c).fileSize - (k.files.fdTable d).position)) :
  ∃ m, readFile image k.currentProc fd buffer size k = some ((n : Int), k.advance d n m)
    ∧ Owned image (k.advance d n m) (a :: xs) L
    ∧ (∀ o, 8 ≤ o → n ⌈/⌉ k.files.bpb.getBytesPerCluster * k.files.bpb.getBytesPerCluster ≤ o →
      o < pageSize → m.bytes (a + o) = k.memory.bytes (a + o))
    ∧ ((k.files.fdTable d).position % k.files.bpb.getBytesPerCluster + n ≤ pageSize →
      ∀ j, j < n → (k.advance d n m).userByte (buffer + j) = some
        (if (k.files.fdTable d).position % k.files.bpb.getBytesPerCluster + j
            < n ⌈/⌉ k.files.bpb.getBytesPerCluster * k.files.bpb.getBytesPerCluster then
          k.files.fileByte (k.files.fcbTable c).startCluster ((k.files.fdTable d).position + j)
        else
          k.memory.bytes (a + (k.files.fdTable d).position % k.files.bpb.getBytesPerCluster + j)))
  := by
  have hlive := hq.live_current hidle
  obtain ⟨hfit, hbuf, hend⟩ := hfits i d c hi hd hc
  have hfile := hstored.fileSize
  have hmin := readSize_of_nonneg hfile hpos hlo hhi (by omega)
  have hrequest : readSize (k.files.fdTable d).position (k.files.fcbTable c).fileSize size = n := by
    omega
  have hrequest' : unsigned 32 (clipSize (k.files.fdTable d).position (k.files.fcbTable c).fileSize
      size) = n := hrequest
  rw [hrequest'] at hfit hend
  have hlast : (k.files.fcbTable c).startCluster
      + (k.files.fdTable d).position / k.files.bpb.getBytesPerCluster < 2 ^ 16 := by
    have hclusters := hvolume.le_clusters (k.files.fcbTable c).fileSize
    rw [Nat.mul_comm] at hclusters
    have hdiv := Nat.div_le_of_le_mul (hpos.trans hclusters)
    have hupper := hstored.upper
    omega
  have hstart := hstored.lower
  have hreadable : k.files.Readable (k.files.fcbTable c).startCluster
      (k.files.fdTable d).position := by
    refine ⟨hvolume.bytesPerCluster_pos.ne', ?_⟩
    unfold readCluster
    rw [Nat.mod_eq_of_lt hlast]
    exact hstart.trans (Nat.le_add_right _ _)
  obtain ⟨m, hrun, _, _, hread, _, hpage⟩ := readRawData_spec (h.space k.currentProc hlive)
    h.kernelEnd.le (h.space_isPage hlive) (h.space_nodup hlive) h.free hreadable hfit hbuf hend
  have hrun' : readFile image k.currentProc fd buffer size k = some ((n : Int), k.advance d n m) := by
    rw [readFile_eq hi hd hc, Kernel.readSize, hrequest, h.pageMapRegister hq hidle, hrun,
      Option.map_some, int32_of_range (by omega) (by omega)]
  have h' := h.readFile hq hidle hfits hrun'
  have hsectors := hvolume.readSectors_eq (n := n) (by omega)
  rw [hsectors] at hread hpage
  rw [hvolume.readOffset_eq] at hread
  refine ⟨m, hrun', h', hpage, ?_⟩
  intro hroom j hj
  have hv : InUserPage (buffer + j) := ⟨by omega, by omega⟩
  have haddr : (L.space k.currentProc).page + (buffer + j - userVirtualAddressBase)
      = userAddress (L.space k.currentProc) buffer + j := by
    unfold userAddress
    omega
  have hdisk := hvolume.diskByte_eq hstart hlast j
  rw [hvolume.readOffset_eq] at hdisk
  rw [Owned.userByte (k := k.advance d n m) h' hq hidle hv, ← hdisk, ← hread hroom j hj, ← haddr]
  rfl

/-- A covered read delivers the next bytes of the file. -/
theorem readFile_delivers
    (h : Owned image k (a :: xs) L) (hq : Queued k.scheduler q (some k.currentProc) none)
    (hidle : k.currentProc ≠ idleSlot) (hvolume : Volume k.files) (hi : fileIndex fd = some i)
    (hd : (k.process k.currentProc).file i = some d) (hc : (k.files.fdTable d).fcb = some c)
    (hlo : 0 ≤ size) (hhi : size < 2 ^ 31) (hfits : ReadFits k.currentProc fd buffer size k)
    (hcovered : k.files.Covered (k.files.fdTable d).position (k.files.fcbTable c).fileSize
      size.toNat)
    (hpos : (k.files.fdTable d).position ≤ (k.files.fcbTable c).fileSize)
    (hstored : k.files.StoredAt (k.files.fcbTable c).startCluster (k.files.fcbTable c).fileSize)
    (hn : n = min size.toNat ((k.files.fcbTable c).fileSize - (k.files.fdTable d).position)) :
  ∃ m, readFile image k.currentProc fd buffer size k = some ((n : Int), k.advance d n m)
    ∧ (k.files.fdTable d).position + n < 2 ^ 32
    ∧ (k.advance d n m).userBytes buffer n = (List.range n).map (fun j =>
      some (k.files.fileByte (k.files.fcbTable c).startCluster ((k.files.fdTable d).position + j)))
  := by
  obtain ⟨hsum, hends⟩ := hcovered
  rw [← hn] at hends
  obtain ⟨m, hrun, _, _, hbytes⟩ := readFile_spec h hq hidle hvolume hi hd hc hlo hhi hfits hsum
    hpos hstored hn
  have hsize : n ≤ pageSize := by
    obtain ⟨_, hbuf, hend⟩ := hfits i d c hi hd hc
    have hmin := readSize_of_nonneg hstored.fileSize hpos hlo hhi (by omega)
    unfold readSize at hmin
    omega
  refine ⟨m, hrun, by omega, ?_⟩
  apply List.map_congr_left
  intro j hj
  rw [List.mem_range] at hj
  have hend := hends.resolve_left (by omega)
  rw [hbytes (hend.trans (hvolume.clusters_le hsize)) j hj, if_pos (by omega)]

end Read

/-! ### Runs -/

/-- More bytes of a file. -/
theorem fileBytes_add (files : FileSystem) (start l n : ℕ) :
  files.fileBytes start (l + n) = files.fileBytes start l
    ++ (List.range n).map (fun j => some (files.fileByte start (l + j)))
  := by
  unfold fileBytes
  rw [List.range_add, List.map_append, List.map_map]
  rfl

/-- An operation that does not read from the descriptor delivers nothing. -/
theorem deliver_eq_nil (h : ¬ k.Reads op d) :
  k.deliver image d op = []
  := by
  cases op with
  | readFile fd buffer size =>
      apply if_neg
      intro hfile
      obtain ⟨i, hi, hd⟩ := Option.bind_eq_some_iff.mp hfile
      exact h ⟨fd, buffer, size, i, rfl, hi, hd⟩
  | _ => rfl

/-- The bytes that were delivered are the first `delivered.length` bytes of a file of `n` bytes
from the cluster `start` on, and while the descriptor is open its position is their number. -/
structure Delivered (image : Image) (files : FileSystem) (d c start n : ℕ) (s : Stream) :
    Prop where
  owned : ∃ xs L, Owned image s.kernel xs L
  consistent : Consistent s.kernel.scheduler
  referenced : Referenced s.kernel
  disk : SameDisk files s.kernel.files
  bytes : s.delivered = files.fileBytes start s.delivered.length
  length_le : s.delivered.length ≤ n
  linked : ∀ c', (s.kernel.files.fdTable d).fcb = some c' → c' = c
    ∧ (s.kernel.files.fdTable d).position = s.delivered.length
    ∧ (s.kernel.files.fcbTable c).fileSize = n ∧ (s.kernel.files.fcbTable c).startCluster = start

variable {files : FileSystem} {start : ℕ} {s s' : Stream}

/-- A read from the descriptor returns the size of the request or the rest of the file, and
delivers as many bytes. -/
theorem Delivered.read {fd size : Int} {buffer : ℕ} (h : Delivered image files d c start n s)
    (hvolume : Volume files) (hstored : files.StoredAt start n)
    (hreads : s.kernel.Reads (.readFile fd buffer size) d)
    (hok : Stream.Ok image d (.readFile fd buffer size) s) :
  ∃ (m : Memory) (r : ℕ), readFile image s.kernel.currentProc fd buffer size s.kernel
      = some ((r : Int), s.kernel.advance d r m)
    ∧ (r : Int) = min size ((n : Int) - s.delivered.length)
    ∧ (s.kernel.advance d r m).userBytes buffer r = (List.range r).map (fun j =>
      some (files.fileByte start (s.delivered.length + j)))
    ∧ s.delivered.length + r ≤ n ∧ s.delivered.length + r < 2 ^ 32
  := by
  obtain ⟨⟨hallowed, ⟨hhead, hfits⟩, hrequested⟩, hcovered⟩ := hok
  obtain ⟨q, hq⟩ := h.consistent
  obtain ⟨xs, L, howned⟩ := h.owned
  obtain ⟨a, ys, rfl⟩ := howned.free.exists_cons hhead
  obtain ⟨c', hc⟩ := Option.ne_none_iff_exists'.mp hrequested.linked
  obtain ⟨rfl, hpos, hsize, hcluster⟩ := h.linked c' hc
  obtain ⟨hlo, hhi⟩ := hrequested.size fd buffer size rfl hreads
  have hcover := hcovered fd buffer size c' rfl hreads hc
  obtain ⟨_, _, _, i, hop, hi, hd⟩ := hreads
  cases hop
  have hlength := h.length_le
  have hstored' : s.kernel.files.StoredAt (s.kernel.files.fcbTable c').startCluster
      (s.kernel.files.fcbTable c').fileSize := by
    rw [hcluster, hsize]
    exact ⟨hstored.lower, h.disk.bpb.symm ▸ hstored.upper, hstored.fileSize⟩
  obtain ⟨m, hrun, hend, hbytes⟩ := readFile_delivers howned hq (hallowed rfl)
    (hvolume.congr h.disk) hi hd hc hlo hhi hfits hcover (by omega) hstored' rfl
  refine ⟨m, _, hrun, by omega, ?_, by omega, by omega⟩
  rw [hbytes, hpos, hcluster]
  apply List.map_congr_left
  intro j _
  rw [fileByte_congr h.disk]

/-- Every step keeps the delivered bytes a part of the file. -/
theorem Delivered.step (h : Delivered image files d c start n s) (hvolume : Volume files)
    (hstored : files.StoredAt start n) (hok : Stream.Ok image d op s)
    (hrun : Stream.step image d op s = some s') :
  Delivered image files d c start n s'
  := by
  obtain ⟨k', hstep, rfl⟩ := Option.map_eq_some_iff.mp hrun
  obtain ⟨hallowed, hfits, hrequested⟩ := hok.1
  obtain ⟨q, hq⟩ := h.consistent
  obtain ⟨xs, L, howned⟩ := h.owned
  obtain ⟨ys, L', howned', _⟩ := howned.step h.consistent hallowed hfits hstep
  have hconsistent' := (Kernel.step_cases hq.current_used hallowed hstep).consistent h.consistent
  have href' := h.referenced.step h.consistent hallowed hstep
  have hkeeps := h.referenced.step_keeps h.consistent howned.sector hstep
  by_cases hreads : s.kernel.Reads op d
  · obtain ⟨fd, buffer, size, i, rfl, hi, hd⟩ := hreads
    have hreads : s.kernel.Reads (.readFile fd buffer size) d := ⟨fd, buffer, size, i, rfl, hi, hd⟩
    obtain ⟨m, r, hread, _, hbytes, hle, hlt⟩ := h.read hvolume hstored hreads hok
    obtain rfl : k' = s.kernel.advance d r m := by
      rw [Kernel.step, hread] at hstep
      exact (Option.some.inj hstep).symm
    have hdeliver : s.kernel.deliver image d (.readFile fd buffer size)
        = (List.range r).map (fun j => some (files.fileByte start (s.delivered.length + j))) := by
      have hfile : (fileIndex fd).bind (s.kernel.process s.kernel.currentProc).file = some d :=
        Option.bind_eq_some_iff.mpr ⟨i, hi, hd⟩
      unfold Kernel.deliver
      dsimp only
      rw [if_pos hfile, hread]
      exact hbytes
    have hlength : (s.delivered ++ s.kernel.deliver image d (.readFile fd buffer size)).length
        = s.delivered.length + r := by
      rw [hdeliver, List.length_append, List.length_map, List.length_range]
    have hself : (s.kernel.advance d r m).files.fdTable d = { s.kernel.files.fdTable d with
        position := ((s.kernel.files.fdTable d).position + r) % 2 ^ 32 } :=
      Function.update_self _ _ _
    refine ⟨⟨ys, L', howned'⟩, hconsistent', href', h.disk.trans hkeeps.disk, ?_, ?_, ?_⟩
    · dsimp only
      rw [hlength, fileBytes_add, ← h.bytes, hdeliver]
    · exact hlength.trans_le hle
    · intro c' hc'
      dsimp only at hc' ⊢
      rw [hself] at hc' ⊢
      obtain ⟨rfl, hpos, hsize, hcluster⟩ := h.linked c' hc'
      refine ⟨rfl, ?_, hsize, hcluster⟩
      dsimp only
      rw [hlength, hpos, Nat.mod_eq_of_lt hlt]
  · have hdelivered : s.delivered ++ s.kernel.deliver image d op = s.delivered := by
      rw [deliver_eq_nil hreads, List.append_nil]
    rw [hdelivered]
    refine ⟨⟨ys, L', howned'⟩, hconsistent', href', h.disk.trans hkeeps.disk, h.bytes,
      h.length_le, ?_⟩
    intro c' hc'
    obtain ⟨b, hb⟩ := Option.ne_none_iff_exists'.mp hrequested.linked
    obtain ⟨rfl, hpos, hsize, hcluster⟩ := h.linked b hb
    rcases hkeeps.linked d b hb with hnone | ⟨hlinked, hposition⟩
    · rw [hnone] at hc'
      contradiction
    · refine ⟨(Option.some.inj (hlinked.symm.trans hc')).symm, (hposition hreads).trans hpos,
        (hkeeps.fileSize d b hb).trans hsize, (hkeeps.startCluster d b hb).trans hcluster⟩

/-- In every run from a state where a descriptor is open at position 0, in which all reads from
it are covered, the delivered bytes are the first bytes of the file, and a read returns the
size of the request or the rest of the file. -/
theorem reads_deliver {k₀ : Kernel} (h : Owned image k₀ xs L) (hq : Consistent k₀.scheduler)
    (href : Referenced k₀) (hvolume : Volume k₀.files) (hc : (k₀.files.fdTable d).fcb = some c)
    (hpos : (k₀.files.fdTable d).position = 0)
    (hstored : k₀.files.StoredAt (k₀.files.fcbTable c).startCluster (k₀.files.fcbTable c).fileSize)
    (hreach : Reachable (Stream.step image d) (Stream.Ok image d) ⟨k₀, []⟩ s) :
  s.delivered
      = k₀.files.fileBytes (k₀.files.fcbTable c).startCluster s.delivered.length
    ∧ s.delivered.length ≤ (k₀.files.fcbTable c).fileSize
    ∧ ∀ fd buffer size, s.kernel.Reads (.readFile fd buffer size) d →
      Stream.Ok image d (.readFile fd buffer size) s →
      ∃ k', readFile image s.kernel.currentProc fd buffer size s.kernel
        = some (min size ((k₀.files.fcbTable c).fileSize - s.delivered.length), k')
  := by
  have hdelivered : Delivered image k₀.files d c (k₀.files.fcbTable c).startCluster
      (k₀.files.fcbTable c).fileSize s := by
    apply hreach.invariant (P := Delivered image k₀.files d c (k₀.files.fcbTable c).startCluster
      (k₀.files.fcbTable c).fileSize)
    · exact fun op t t' ht hok hrun => ht.step hvolume hstored hok hrun
    · refine ⟨⟨xs, L, h⟩, hq, href, SameDisk.refl _, rfl, Nat.zero_le _, ?_⟩
      intro c' hc'
      obtain rfl := Option.some.inj (hc.symm.trans hc')
      exact ⟨rfl, hpos, rfl, rfl⟩
  refine ⟨hdelivered.bytes, hdelivered.length_le, ?_⟩
  intro fd buffer size hreads hok
  obtain ⟨m, r, hrun, hr, _⟩ := hdelivered.read hvolume hstored hreads hok
  exact ⟨_, hr ▸ hrun⟩

/-! ### The file of the small machine -/

/-- A state of the small machine in which the shell has opened the file in the root directory:
its bytes are in the clusters 2 and 3 of 512 bytes each, and `fd` and `d` are its number and its
descriptor. -/
structure SmallFile (k : Kernel) (a : ℕ) (xs : List ℕ) (L : Layout)
    (fd : Fin processMaximumFileDescriptor) (d c : ℕ) : Prop where
  owned : Owned smallImage k (a :: xs) L
  queued : Queued k.scheduler (fun _ => []) (some k.currentProc) none
  idle : k.currentProc ≠ idleSlot
  referenced : Referenced k
  disk : k.files.disk = smallDisk
  bpb : k.files.bpb = BPB.load smallDisk 0
  file : (k.process k.currentProc).file fd = some d
  linked : (k.files.fdTable d).fcb = some c
  fileSize : (k.files.fcbTable c).fileSize = 1024
  startCluster : (k.files.fcbTable c).startCluster = 2

namespace SmallFile

variable {fd : Fin processMaximumFileDescriptor}

theorem volume (h : SmallFile k a xs L fd d c) :
  Volume k.files
  where
  bpb := by rw [h.bpb, h.disk]
  bytesPerSector := by
    rw [h.bpb]
    decide
  sectorsPerCluster := by
    rw [h.bpb]
    exact ⟨0, by decide, by decide⟩

theorem bytesPerCluster (h : SmallFile k a xs L fd d c) :
  k.files.bpb.getBytesPerCluster = 512
  := by
  rw [h.bpb]
  decide

theorem stored (h : SmallFile k a xs L fd d c) :
  k.files.StoredAt (k.files.fcbTable c).startCluster (k.files.fcbTable c).fileSize
  := by
  rw [h.startCluster, h.fileSize]
  refine ⟨by decide, ?_, by decide⟩
  rw [h.bytesPerCluster, Nat.ceilDiv_eq_add_pred_div]
  decide

theorem fileByte (h : SmallFile k a xs L fd d c) {o : ℕ} (hlo : 512 ≤ o) (hhi : o < 1024) :
  k.files.fileByte 2 o = 2
  := by
  rw [h.volume.fileByte_eq (by decide), h.disk]
  have hsector : k.files.clusterSector 2 = 3 := by
    unfold clusterSector
    rw [h.bpb]
    decide
  rw [hsector, sectorSize_eq, smallDisk, if_neg (by omega), if_pos (by omega)]

/-- Reads of at most 1024 bytes fit. -/
theorem readFits (h : SmallFile k a xs L fd d c) (size n : ℕ) (hsize : size ≤ 1024)
    (hpos : (k.files.fdTable d).position + n = 1024) :
  ReadFits k.currentProc fd.val userVirtualAddressBase size k
  := by
  intro i d' c' hi hd hc
  obtain rfl : fd = i := Fin.ext (Int.ofNat.inj (fileIndex_eq_some.mp hi).symm)
  obtain rfl := Option.some.inj (h.file.symm.trans hd)
  obtain rfl := Option.some.inj (h.linked.symm.trans hc)
  have hmin : (readSize (k.files.fdTable d).position (k.files.fcbTable c).fileSize size : Int)
      = min (size : Int) ((k.files.fcbTable c).fileSize - (k.files.fdTable d).position) := by
    apply readSize_of_nonneg
    · rw [h.fileSize]
      decide
    · rw [h.fileSize]
      omega
    · omega
    · omega
    · omega
  have hpage := pageSize_eq
  unfold readSize at hmin
  dsimp only
  generalize unsigned 32 (clipSize (k.files.fdTable d).position (k.files.fcbTable c).fileSize size)
    = r at hmin
  refine ⟨?_, le_rfl, by omega⟩
  rw [h.volume.readSectors_eq (by omega)]
  exact h.volume.clusters_le (by omega)

/-- A read of at most 512 bytes fetches one cluster, whatever the position is. -/
theorem read (h : SmallFile k a xs L fd d c) (size : ℕ) (hsize : size ≤ 512)
    (hpos : (k.files.fdTable d).position < 512) :
  ∃ m, readFile smallImage k.currentProc fd.val userVirtualAddressBase size k
      = some ((size : Int), k.advance d size m)
    ∧ SmallFile (k.advance d size m) a xs L fd d c
    ∧ ((k.advance d size m).files.fdTable d).position = (k.files.fdTable d).position + size
    ∧ (∀ o, 512 ≤ o → o < pageSize → m.bytes (a + o) = k.memory.bytes (a + o))
    ∧ ∀ j, j < size → 512 ≤ (k.files.fdTable d).position + j →
      (k.advance d size m).userByte (userVirtualAddressBase + j)
        = some (k.memory.bytes (a + (k.files.fdTable d).position + j))
  := by
  have hfits := h.readFits size (1024 - (k.files.fdTable d).position) (by omega) (by omega)
  have hn : size = min (size : Int).toNat
      ((k.files.fcbTable c).fileSize - (k.files.fdTable d).position) := by
    rw [h.fileSize]
    omega
  have hend : (k.files.fdTable d).position ≤ (k.files.fcbTable c).fileSize := by
    rw [h.fileSize]
    omega
  obtain ⟨m, hrun, howned, hpage, hbytes⟩ := readFile_spec h.owned h.queued h.idle h.volume
    (fileIndex_eq_some.mpr rfl) h.file h.linked (by omega) (by omega) hfits (by omega) hend
    h.stored hn
  have hclusters : size ⌈/⌉ 512 ≤ 1 := (ceilDiv_le_iff_le_mul (by decide)).mpr (by omega)
  have hsize' := pageSize_eq
  rw [h.bytesPerCluster] at hpage hbytes
  rw [Nat.mod_eq_of_lt hpos] at hbytes
  have hself : (k.advance d size m).files.fdTable d = { k.files.fdTable d with
      position := ((k.files.fdTable d).position + size) % 2 ^ 32 } := Function.update_self _ _ _
  refine ⟨m, hrun, ?_, ?_, ?_, ?_⟩
  · exact ⟨howned, h.queued, h.idle, h.referenced.readFile hrun, h.disk, h.bpb, h.file,
      (congrArg FD.fcb hself).trans h.linked, h.fileSize, h.startCluster⟩
  · rw [hself]
    dsimp only
    omega
  · exact fun o ho hlt => hpage o (by omega) (by omega) hlt
  · intro j hj hlo
    rw [hbytes (by omega) j hj, if_neg (by omega)]

theorem reads (h : SmallFile k a xs L fd d c) (size : Int) :
  k.Reads (.readFile fd.val userVirtualAddressBase size) d
  := ⟨_, _, _, fd, rfl, fileIndex_eq_some.mpr rfl, h.file⟩

theorem requested (h : SmallFile k a xs L fd d c) {size : ℕ} (hsize : size ≤ 1024)
    (hpos : (k.files.fdTable d).position ≤ 1024) (delivered : List (Option UInt8)) :
  Stream.Requested smallImage d (.readFile fd.val userVirtualAddressBase size) ⟨k, delivered⟩
  := by
  have hhead : k.memory.freePageHead = a := h.owned.free.list.1
  refine ⟨fun _ => h.idle, ⟨?_, ?_⟩, ?_, ?_⟩
  · rw [hhead]
    exact (h.owned.free.isPage a List.mem_cons_self).ne_zero
  · exact h.readFits size (1024 - (k.files.fdTable d).position) hsize (by omega)
  · dsimp only
    rw [h.linked]
    exact Option.some_ne_none c
  · intro _ _ _ hop _
    cases hop
    omega

/-- A recorded read. -/
theorem recorded (h : SmallFile k a xs L fd d c) {size : ℕ} {k' : Kernel}
    (hread : readFile smallImage k.currentProc fd.val userVirtualAddressBase size k
      = some ((size : Int), k')) (delivered : List (Option UInt8)) :
  Stream.step smallImage d (.readFile fd.val userVirtualAddressBase size) ⟨k, delivered⟩
    = some ⟨k', delivered ++ k'.userBytes userVirtualAddressBase size⟩
  := by
  have hfile : (fileIndex fd.val).bind (k.process k.currentProc).file = some d :=
    Option.bind_eq_some_iff.mpr ⟨fd, fileIndex_eq_some.mpr rfl, h.file⟩
  unfold Stream.step Kernel.step Kernel.deliver
  dsimp only
  rw [hread, if_pos hfile]
  rfl

/-- The first free page may hold any bytes after its first word. -/
theorem fill (h : SmallFile k a xs L fd d c) (v : UInt8) :
  SmallFile { k with memory := { k.memory with bytes := memset k.memory.bytes (a + 512) v 512 } }
    a xs L fd d c
  := by
  have hsize := pageSize_eq
  have hchange : Changes [a] k.memory
      { k.memory with bytes := memset k.memory.bytes (a + 512) v 512 } := by
    apply Changes.of_page
    intro x hx
    apply memset_of_outside
    unfold InPage at hx
    omega
  have hword : ∀ p ∈ a :: xs, (memset k.memory.bytes (a + 512) v 512).readWord p
      = k.memory.bytes.readWord p := by
    intro p hp
    by_cases hpa : p = a
    · rw [hpa]
      apply Bytes.readWord_congr
      intro x _ hx
      exact memset_of_outside (by omega)
    · have haligned : ∀ x ∈ [a], addrIsAligned x := by
        intro x hx
        rw [List.mem_singleton.mp hx]
        exact (h.owned.free.isPage a List.mem_cons_self).aligned
      exact hchange.word haligned (h.owned.free.isPage p hp).aligned (by rwa [List.mem_singleton]) 0
        (by omega)
  have hfree : Free smallImage { k.memory with bytes := memset k.memory.bytes (a + 512) v 512 }
      (a :: xs) :=
    ⟨h.owned.free.list.congr hword, h.owned.free.isPage, h.owned.free.nodup⟩
  have howned := h.owned.of_memory hchange
    (fun p hp => Owned.data_free (List.mem_singleton.mp hp ▸ List.mem_cons_self)) hfree
    (fun _ => le_rfl)
  exact ⟨howned, h.queued, h.idle, h.referenced.congr rfl (fun _ => rfl), h.disk, h.bpb, h.file,
    h.linked, h.fileSize, h.startCluster⟩

end SmallFile

/-- The shell of the small machine opens the file. -/
theorem smallFile :
  ∃ k₀ k a xs L fd d c, kMain smallImage (smallMachine 64) = some k₀
    ∧ Run (Kernel.step smallImage) (InBounds smallImage) k₀ [.yield, .openFile [0x41, 0x2E]] k
    ∧ SmallFile k a xs L fd d c ∧ (k.files.fdTable d).position = 0
  := by
  obtain ⟨k₀, k, L, p, p', hboot, hyield, hcurrent, howned, hq, href, hfiles, hfile⟩ :=
    smallMachine_shell (n := 64) (by decide) (by decide)
  have howned' : Owned smallImage k (regionPages (kernelVirtualAddressBase + 0x400000) (51 + 1)) L :=
    howned
  rw [regionPages_succ] at howned'
  have hvolume : Volume k.files := hfiles ▸ smallDisk_volume p p'
  have hroot : k.files.bpb.rootDirEntries < 2 ^ 16 := by
    rw [hvolume.bpb]
    exact Bytes.read_lt 2 _ _
  obtain ⟨entry, hlookup, hcluster, hsize⟩ := smallDisk_lookup p p'
  rw [← hfiles] at hlookup
  have hslot : HasFreeFile (k.process 1) := ⟨3, by decide, congrFun hfile 3⟩
  obtain ⟨fd, d, k', hopen, hfree, hopened⟩ := openFile_opens href (hfiles ▸ booted_cached _ _ _)
    howned'.free hvolume.bytesPerSector hroot hslot hlookup (by rw [hcluster]; decide)
  have hidle : (1 : Slot) ≠ idleSlot := by decide
  have hq' : Queued k.scheduler (fun _ => []) (some k.currentProc) none := hcurrent.symm ▸ hq
  have hused : (k.process 1).state ≠ .unused := hcurrent ▸ hq'.current_used
  have hfiles' := openFile_onlyFiles hused hopen
  have hcurrent' : k'.currentProc = 1 := hfiles'.currentProc.trans hcurrent
  obtain ⟨_, _, hdisk⟩ := howned'.openFile_memory hopen
  have hstep : k.step smallImage (.openFile [0x41, 0x2E]) = some k' := by
    rw [Kernel.step, hcurrent, hopen, Option.map_some]
  have hbounds : InBounds smallImage (.openFile [0x41, 0x2E]) k :=
    ⟨fun _ => hcurrent ▸ hidle, fun hhead => hhead⟩
  have hrun : Run (Kernel.step smallImage) (InBounds smallImage) k₀
      [.yield, .openFile [0x41, 0x2E]] k' :=
    .cons .yield ⟨Bool.noConfusion, fun _ => trivial⟩ hyield (.cons _ hbounds hstep (.nil _))
  refine ⟨k₀, k', _, _, L, fd, d, 0, hboot, hrun, ⟨howned'.openFile hused hopen, ?_, ?_,
    href.openFile hopen, ?_, ?_, ?_, ?_, ?_, ?_⟩, ?_⟩
  · rw [hcurrent']
    exact hfiles'.queued hq
  · rw [hcurrent']
    exact hidle
  · rw [hdisk.disk, hfiles]
    rfl
  · rw [hdisk.bpb, hfiles]
    rfl
  · rw [hcurrent']
    exact hopened.file
  · exact congrArg FD.fcb hopened.descriptor
  · exact hopened.size.trans hsize
  · exact hopened.cluster.trans hcluster
  · exact congrArg FD.position hopened.descriptor

theorem length_userBytes (k : Kernel) (v n : ℕ) :
  (k.userBytes v n).length = n
  := (List.length_map _).trans List.length_range

/-- A read of 600 bytes from the start of the file delivers them. -/
theorem reads_deliver_small :
  ∃ (k : Kernel) (d size : ℕ) (s : Stream),
    Reachable (Stream.step smallImage d) (Stream.Ok smallImage d) ⟨k, []⟩ s
      ∧ s.delivered = k.files.fileBytes 2 size ∧ size = 600
  := by
  obtain ⟨_, k, a, xs, L, fd, d, c, _, _, h, hpos⟩ := smallFile
  obtain ⟨size, hsize⟩ : ∃ size : ℕ, size = 600 := ⟨600, rfl⟩
  have hcovered : Stream.Covered d (.readFile fd.val userVirtualAddressBase size) ⟨k, []⟩ := by
    intro _ _ _ c' hop _ hc
    cases hop
    dsimp only at hc ⊢
    obtain rfl := Option.some.inj (h.linked.symm.trans hc)
    rw [hpos, h.fileSize, hsize]
    unfold FileSystem.Covered
    dsimp only
    rw [h.bytesPerCluster, Nat.ceilDiv_eq_add_pred_div]
    decide
  have hok : Stream.Ok smallImage d (.readFile fd.val userVirtualAddressBase size) ⟨k, []⟩ :=
    ⟨h.requested (by omega) (by omega) [], hcovered⟩
  obtain ⟨_, _, hreturns⟩ := reads_deliver h.owned ⟨_, h.queued⟩ h.referenced h.volume h.linked
    hpos h.stored .refl
  obtain ⟨k', hread⟩ := hreturns _ _ _ (h.reads _) hok
  have hmin : min (size : Int) ((1024 : ℕ) - (([] : List (Option UInt8)).length : Int)) = size := by
    rw [List.length_nil]
    omega
  rw [h.fileSize, hmin] at hread
  have hreach := Reachable.step _ .refl hok (h.recorded hread [])
  obtain ⟨hdelivered, _⟩ := reads_deliver h.owned ⟨_, h.queued⟩ h.referenced h.volume h.linked
    hpos h.stored hreach
  dsimp only at hdelivered
  rw [h.startCluster, List.nil_append, length_userBytes] at hdelivered
  exact ⟨k, d, size, _, hreach, hdelivered, hsize⟩

/-- Reads of 100 and 500 bytes from the start of the file: the second one delivers bytes that the
temporary page held before, since it fetches one cluster only. -/
theorem not_delivered_small :
  ¬ ∀ (k : Kernel) (xs : List ℕ) (L : Layout) (d c : ℕ), Owned smallImage k xs L →
    Consistent k.scheduler → Referenced k → Volume k.files → (k.files.fdTable d).fcb = some c →
    (k.files.fdTable d).position = 0 →
    k.files.StoredAt (k.files.fcbTable c).startCluster (k.files.fcbTable c).fileSize →
    ∀ s, Reachable (Stream.step smallImage d) (Stream.Requested smallImage d) ⟨k, []⟩ s →
      s.delivered = k.files.fileBytes (k.files.fcbTable c).startCluster s.delivered.length
  := by
  intro hall
  obtain ⟨_, k₀, a, xs, L, fd, d, c, _, _, h₀, hpos₀⟩ := smallFile
  have h := h₀.fill 7
  have hbyte : memset k₀.memory.bytes (a + 512) 7 512 (a + 512) = 7 :=
    memset_of_inside (by omega) (by omega)
  generalize hk : ({ k₀ with memory :=
    { k₀.memory with bytes := memset k₀.memory.bytes (a + 512) 7 512 } } : Kernel) = k at h
  have hpos : (k.files.fdTable d).position = 0 := by
    rw [← hk]
    exact hpos₀
  have hfill : k.memory.bytes (a + 512) = 7 := by
    rw [← hk]
    exact hbyte
  have hpage := pageSize_eq
  obtain ⟨m, hread, h', hpos', hbytes, _⟩ := h.read 100 (by decide) (by omega)
  rw [hpos] at hpos'
  obtain ⟨m', hread', _, _, _, hstale⟩ := h'.read 500 (by decide) (by omega)
  have hreach : Reachable (Stream.step smallImage d) (Stream.Requested smallImage d) ⟨k, []⟩ _ :=
    .step _ (.step _ .refl (h.requested (by decide) (by omega) []) (h.recorded hread []))
      (h'.requested (by decide) (by omega) _) (h'.recorded hread' _)
  have hdelivered := hall k _ L d c h.owned ⟨_, h.queued⟩ h.referenced h.volume h.linked hpos
    h.stored _ hreach
  dsimp only at hdelivered
  rw [List.nil_append, List.length_append, length_userBytes, length_userBytes, h.startCluster]
    at hdelivered
  have hstale' : (k.advance d 100 m |>.advance d 500 m').userByte (userVirtualAddressBase + 412)
      = some 7 := by
    rw [hstale 412 (by decide) (by omega), hpos', ← hfill, ← hbytes 512 (by decide) (by omega)]
    rfl
  have hget := congrArg (fun l : List (Option UInt8) => l[512]?) hdelivered
  beta_reduce at hget
  rw [List.getElem?_append_right (by rw [length_userBytes]; decide), length_userBytes] at hget
  unfold Kernel.userBytes fileBytes at hget
  rw [List.getElem?_map, List.getElem?_map, List.getElem?_range (by decide),
    List.getElem?_range (by decide), Option.map_some, Option.map_some, hstale',
    h.fileByte (by decide) (by decide)] at hget
  exact absurd hget (by decide)

end LarvaOS
