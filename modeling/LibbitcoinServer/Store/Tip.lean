import LibbitcoinServer.Lib.Reads

/-! # The confirmed index

What the store keeps with the link of a header is never changed.  The confirmed chain is
a list of links, which other threads extend and cut back at its top, while blocks are
archived and the candidate chain moves.
-/

namespace LibbitcoinServer.Store

structure BlockHeader (Digest : Type) where
  hash : Digest
  timestamp : Nat
  bits : UInt32
  deriving DecidableEq

/-- The queries by the link of a header.  A stored header that is found is the one of the
    link, a wire header is its 80 bytes, and one key stands at one height. -/
structure HeaderStore (Link Digest : Type) where
  getHeaderKey : Link → Digest
  height : Link → Nat
  getHeight : Link → Option Nat
  getHeader : Link → Option (BlockHeader Digest)
  getWireHeader : Link → Option (List UInt8)
  getContext : Link → Option Nat
  getHeight_eq : ∀ {link read}, getHeight link = some read → read = height link
  hash_eq : ∀ {link header}, getHeader link = some header → header.hash = getHeaderKey link
  wire_length : ∀ {link wire}, getWireHeader link = some wire → wire.length = 80
  height_of_key : ∀ {first second}, getHeaderKey first = getHeaderKey second →
    height first = height second

/-- Links that are their own keys and heights, with no header found. -/
def HeaderStore.unfound : HeaderStore Nat Nat where
  getHeaderKey := id
  height := id
  getHeight _ := none
  getHeader _ := none
  getWireHeader _ := none
  getContext _ := none
  getHeight_eq same := by cases same
  hash_eq same := by cases same
  wire_length same := by cases same
  height_of_key := id

variable {Link Digest : Type}

/-- Genesis and the links above it, each at its height.  A count of them is a `size_t`. -/
structure Confirmed (store : HeaderStore Link Digest) where
  genesis : Link
  above : List Link
  placed : ∀ index link, (genesis :: above)[index]? = some link → store.height link = index
  bounded : above.length + 1 < UInt64.size

namespace Confirmed

variable {store : HeaderStore Link Digest} (chain : Confirmed store)

def links : List Link := chain.genesis :: chain.above

/-- `get_top_confirmed`. -/
def top : Nat := chain.above.length

/-- `to_top_confirmed`. -/
def toTop : Link := chain.above.getLastD chain.genesis

/-- `get_confirmed_headers`. -/
def headers (start count : Nat) : List Link := (chain.links.drop start).take count

@[simp] theorem length_links : chain.links.length = chain.top + 1 := rfl

theorem links_top : chain.links[chain.top]? = some chain.toTop := by
  rw [links, top, toTop]
  cases last : chain.above using List.reverseRecOn with
  | nil => rfl
  | append_singleton early last =>
      rw [List.getLastD_concat, List.length_append, List.length_singleton,
        List.getElem?_cons_succ, List.getElem?_concat_length]

/-- The top link stands at the top. -/
theorem height_toTop : store.height chain.toTop = chain.top :=
  chain.placed _ _ chain.links_top

theorem height_headers {start count index : Nat} {link : Link}
    (here : (chain.headers start count)[index]? = some link) :
    store.height link = start + index := by
  rw [headers, List.getElem?_take] at here
  split_ifs at here with early
  rw [List.getElem?_drop] at here
  exact chain.placed _ _ here

theorem length_headers (start count : Nat) :
    (chain.headers start count).length = min count (chain.top + 1 - start) := by
  rw [headers, List.length_take, List.length_drop, length_links]

def connect (link : Link) (next : store.height link = chain.top + 1)
    (small : chain.top + 2 < UInt64.size) : Confirmed store where
  genesis := chain.genesis
  above := chain.above ++ [link]
  placed := by
    intro index other here
    rw [← List.cons_append, List.getElem?_append] at here
    split_ifs at here with early
    · exact chain.placed index other here
    · obtain ⟨bound, rfl⟩ := List.getElem?_eq_some_iff.mp here
      rw [List.length_singleton, List.length_cons] at bound
      rw [List.length_cons] at early
      have last : index = chain.above.length + 1 := by omega
      simpa [last, top] using next
  bounded := by
    rw [List.length_append, List.length_singleton]
    exact small

def disconnect : Confirmed store where
  genesis := chain.genesis
  above := chain.above.dropLast
  placed := by
    intro index link here
    cases index with
    | zero => exact chain.placed 0 link here
    | succ index =>
        rw [List.getElem?_cons_succ, List.getElem?_dropLast] at here
        split_ifs at here
        exact chain.placed (index + 1) link here
  bounded := by
    have bounded := chain.bounded
    rw [List.length_dropLast]
    omega

end Confirmed

/-- What a read may see of the headers: those archived, the candidate top and the
    confirmed chain. -/
structure Indexes (store : HeaderStore Link Digest) where
  archived : List Link
  candidateTop : Nat
  confirmed : Confirmed store

/-- What other threads do to the headers.  A reorganization is a run of disconnected blocks,
    then one of connected blocks. -/
inductive Change (Link : Type) where
  | archive (link : Link)
  | candidate (top : Nat)
  | connect (link : Link)
  | disconnect

namespace Indexes

variable {store : HeaderStore Link Digest} (indexes : Indexes store)

def step : Change Link → Indexes store
  | .archive link => { indexes with archived := indexes.archived ++ [link] }
  | .candidate top => { indexes with candidateTop := top }
  | .connect link =>
      if allowed : store.height link = indexes.confirmed.top + 1 ∧
          indexes.confirmed.top + 2 < UInt64.size then
        { indexes with confirmed := indexes.confirmed.connect link allowed.1 allowed.2 }
      else indexes
  | .disconnect => { indexes with confirmed := indexes.confirmed.disconnect }

def getTopConfirmed : Nat := indexes.confirmed.top

def toTopConfirmed : Link := indexes.confirmed.toTop

def getTopConfirmedHash : Digest := store.getHeaderKey indexes.confirmed.toTop

def toConfirmed (height : Nat) : Option Link := indexes.confirmed.links[height]?

def getConfirmedHeaders (start count : Nat) : List Link := indexes.confirmed.headers start count

/-- The confirmed block above a confirmed block. -/
def toConfirmedChild [DecidableEq Link] (link : Link) : Option Link :=
  if indexes.toConfirmed (store.height link) = some link then
    indexes.toConfirmed (store.height link + 1)
  else none

def toHeader [DecidableEq Digest] (hash : Digest) : Option Link :=
  indexes.archived.find? fun link => store.getHeaderKey link = hash

end Indexes

/-- What other threads do that cuts nothing off the chain. -/
def Uncut : Change Link → Prop
  | .disconnect => False
  | _ => True

theorem links_step {store : HeaderStore Link Digest} (indexes : Indexes store)
    {change : Change Link} (uncut : Uncut change) :
    indexes.confirmed.links <+: (indexes.step change).confirmed.links := by
  cases change with
  | archive link | candidate top => exact List.prefix_refl _
  | connect link =>
      rw [Indexes.step]
      split_ifs
      · exact ⟨[link], rfl⟩
      · exact List.prefix_refl _
  | disconnect => exact uncut.elim

/-- The chain that a read sees begins with the chain of any read before it. -/
theorem links_interleaved {store : HeaderStore Link Digest} (start : Indexes store)
    {schedule : Nat → List (Change Link)}
    (uncut : ∀ index, ∀ change ∈ schedule index, Uncut change) {early late : Nat}
    (order : early ≤ late) :
    (Reads.interleaved Indexes.step start schedule early).confirmed.links <+:
      (Reads.interleaved Indexes.step start schedule late).confirmed.links :=
  @Reads.interleaved_related _ _ Indexes.step
    (fun early late => early.confirmed.links <+: late.confirmed.links) Uncut
    (fun _ => List.prefix_refl _) List.IsPrefix.trans
    (fun indexes _ allowed => links_step indexes allowed) start schedule uncut _ _ order

end LibbitcoinServer.Store
