import LibbitcoinServer.Lib.Paging
import LibbitcoinServer.Services.Tips

/-! # Pages of blocks

A page of blocks is read block by block from a height down, while the chain moves.  It is a
run of heights whatever the reads see.  A client that asks for the blocks below the last that
it was sent is sent the chain.
-/

namespace LibbitcoinServer.Esplora

open Store (HeaderStore Indexes Change Confirmed Uncut)

structure BlockData (Digest : Type) where
  version : Nat
  timestamp : Nat
  bits : UInt32
  nonce : Nat
  merkleRoot : Digest
  previousBlockHash : Digest

/-- The json of a block. -/
structure BlockObject (Digest : Type) where
  id : Digest
  height : Nat
  version : Nat
  timestamp : Nat
  bits : UInt32
  nonce : Nat
  difficulty : ℚ
  merkleRoot : Digest
  txCount : Nat
  size : Nat
  weight : Nat
  mediantime : Nat
  previousblockhash : Option Digest

/-- The queries of blocks by link, and what the handlers use of the system library. -/
structure BlockStore (Link Digest : Type) where
  getHeader : Link → Option (BlockData Digest)
  isAssociated : Link → Bool
  getBlockSizes : Link → Option (Nat × Nat)
  getTxCount : Link → Nat
  difficulty : UInt32 → ℚ
  weightedSize : Nat → Nat → Nat
  nullHash : Digest

/-- `block_page`. -/
def blockPage : Nat := 10

inductive BlocksFault where
  | notAcceptable
  | notFound
  deriving DecidableEq

section Handlers

variable {Link Digest : Type} [DecidableEq Link] [DecidableEq Digest]
  {store : HeaderStore Link Digest} (blocks : BlockStore Link Digest)
  (confirmedChainState : Indexes store → Digest → Option Nat)

def toBlock (link : Option Link) : Reads (Indexes store) (Option (BlockObject Digest)) :=
  match link with
  | none => return none
  | some link =>
      match blocks.getHeader link, blocks.isAssociated link, store.getHeight link,
        blocks.getBlockSizes link with
      | some header, true, some height, some (nominal, maximal) => do
          let mediantime ← Services.medianTime confirmedChainState link
          return some {
            id := store.getHeaderKey link
            height
            version := header.version
            timestamp := header.timestamp
            bits := header.bits
            nonce := header.nonce
            difficulty := blocks.difficulty header.bits
            merkleRoot := header.merkleRoot
            txCount := blocks.getTxCount link
            size := maximal
            weight := blocks.weightedSize nominal maximal
            mediantime
            previousblockhash :=
              if header.previousBlockHash ≠ blocks.nullHash then some header.previousBlockHash
              else none }
      | _, _, _, _ => return none

/-- The loop over the blocks of a page, with the turns that are left. -/
def readBlocks : Nat → Nat → Reads (Indexes store) (List (BlockObject Digest))
  | 0, _ => return []
  | turns + 1, start => do
      let link ← Reads.get fun indexes => indexes.toConfirmed start
      let block ← toBlock blocks confirmedChainState link
      match block with
      | none => return []
      | some block =>
          if start = 0 then return [block]
          else do
            let rest ← readBlocks turns (start - 1)
            return block :: rest

/-- The height is a `uint32_t`. -/
def handleGetBlocks (json : Bool) (height : Option Nat) :
    Reads (Indexes store) (Except BlocksFault (List (BlockObject Digest))) :=
  if json then do
    let top ← Reads.get Indexes.getTopConfirmed
    let start := height.getD (top % 2 ^ 32)
    if start > top then return .error .notFound
    else do
      let out ← readBlocks blocks confirmedChainState blockPage start
      return .ok out
  else return .error .notAcceptable

end Handlers

section Pages

variable {Link Digest : Type} [DecidableEq Link] [DecidableEq Digest]
  {store : HeaderStore Link Digest} {blocks : BlockStore Link Digest}
  {confirmedChainState : Indexes store → Digest → Option Nat} {sees : Indexes store → Prop}

/-! ## A page is a run of heights -/

/-- What is said of the block of a link. -/
structure BlockObject.Of (store : HeaderStore Link Digest) (block : BlockObject Digest)
    (link : Link) : Prop where
  id : block.id = store.getHeaderKey link
  height : block.height = store.height link

theorem toBlock_of (link : Option Link) :
    (toBlock blocks confirmedChainState link : Reads (Indexes store) _).Whenever sees fun out =>
      ∀ block, out = some block → ∃ found, link = some found ∧ block.Of store found := by
  cases link with
  | none =>
      intro block made
      cases made
  | some link =>
      unfold toBlock
      dsimp only
      split
      case h_2 =>
        intro block made
        cases made
      case h_1 header height nominal maximal _ _ found _ =>
        rw [Reads.whenever_bind]
        apply Reads.whenever_of_forall
        intro median block made
        cases made
        exact ⟨link, rfl, rfl, store.getHeight_eq found⟩

/-- The heights from one down, as many as there are blocks, each confirmed at its height when
    it was read. -/
structure Descends (sees : Indexes store → Prop) (start : Nat) (page : List (BlockObject Digest)) :
    Prop where
  heights : page.map BlockObject.height = (List.range page.length).map fun index => start - index
  enough : page.length ≤ start + 1
  confirmed : ∀ block ∈ page, ∃ indexes link, sees indexes ∧
    indexes.toConfirmed block.height = some link ∧ block.Of store link

omit [DecidableEq Link] [DecidableEq Digest] in
theorem descends_nil (start : Nat) : Descends sees start [] where
  heights := rfl
  enough := Nat.zero_le _
  confirmed := by simp

omit [DecidableEq Link] [DecidableEq Digest] in
theorem descends_cons {indexes : Indexes store} {start : Nat} {block : BlockObject Digest}
    {page : List (BlockObject Digest)} {link : Link} (seen : sees indexes)
    (here : indexes.toConfirmed start = some link) (of : block.Of store link)
    (rest : page ≠ [] → start ≠ 0) (below : Descends sees (start - 1) page) :
    Descends sees start (block :: page) := by
  have height : block.height = start := of.height.trans (indexes.confirmed.placed start link here)
  constructor
  · rw [List.map_cons, below.heights, height, List.length_cons, List.range_succ_eq_map,
      List.map_cons, List.map_map, Nat.sub_zero]
    congr 1
    refine List.map_congr_left fun index _ => ?_
    simp only [Function.comp_apply]
    omega
  · have enough := below.enough
    rw [List.length_cons]
    cases page with
    | nil => exact Nat.le_add_left _ _
    | cons next page =>
        have positive := rest (List.cons_ne_nil _ _)
        omega
  · intro other member
    cases List.mem_cons.mp member with
    | inl same =>
        rw [same, height]
        exact ⟨indexes, link, seen, here, of⟩
    | inr later => exact below.confirmed other later

theorem readBlocks_descends (turns start : Nat) :
    (readBlocks blocks confirmedChainState turns start : Reads (Indexes store) _).Whenever sees
      fun page => page.length ≤ turns ∧ Descends sees start page := by
  induction turns generalizing start with
  | zero => exact ⟨Nat.le_refl 0, descends_nil start⟩
  | succ turns ih =>
      rw [readBlocks, Reads.whenever_get_bind]
      intro indexes seen
      rw [Reads.whenever_bind]
      refine (toBlock_of _).imp fun out found => ?_
      cases out with
      | none => exact ⟨Nat.zero_le _, descends_nil start⟩
      | some block =>
          obtain ⟨link, here, of⟩ := found block rfl
          dsimp only
          split_ifs with genesis
          · refine ⟨Nat.le_add_left _ _, descends_cons seen here of ?_ (descends_nil _)⟩
            exact fun some_page => absurd rfl some_page
          · rw [Reads.whenever_bind]
            refine (ih (start - 1)).imp fun page below => ⟨?_, ?_⟩
            · rw [List.length_cons]
              exact Nat.succ_le_succ below.1
            · exact descends_cons seen here of (fun _ => genesis) below.2

/-- The reply to a request, of the page that is read after the top. -/
theorem getBlocks_run (height : Option Nat) (seen : Nat → Indexes store) :
    (handleGetBlocks blocks confirmedChainState true height).run seen =
      let start := height.getD ((seen 0).getTopConfirmed % 2 ^ 32)
      if start > (seen 0).getTopConfirmed then .error .notFound
      else .ok ((readBlocks blocks confirmedChainState blockPage start).run fun later =>
        seen (later + 1)) := by
  rw [handleGetBlocks, if_pos rfl, Reads.run_get_bind]
  dsimp only
  split_ifs
  · rfl
  · exact Reads.run_bind_pure _ Except.ok _

/-- Whatever other threads do between the reads of a request, its page is a run of at most ten
    heights from the one asked for, or else from the top of the first read, down, with the hash
    of a block that was confirmed at each when it was read. -/
theorem getBlocks_descends (height : Option Nat) (start : Indexes store)
    (schedule : Nat → List (Change Link)) :
    let seen := Reads.interleaved Indexes.step start schedule
    ∀ page, (handleGetBlocks blocks confirmedChainState true height).run seen = .ok page →
      page.length ≤ blockPage ∧ ∃ first, (∀ given, height = some given → first = given) ∧
        (height = none → first = (seen 0).getTopConfirmed % 2 ^ 32) ∧
        first ≤ (seen 0).getTopConfirmed ∧
        Descends (fun indexes => ∃ index, seen index = indexes) first page := by
  intro seen page replied
  have from_given : ∀ given, height = some given →
      height.getD ((seen 0).getTopConfirmed % 2 ^ 32) = given := by
    intro given same
    rw [same, Option.getD_some]
  have from_top : height = none →
      height.getD ((seen 0).getTopConfirmed % 2 ^ 32) = (seen 0).getTopConfirmed % 2 ^ 32 := by
    intro same
    rw [same, Option.getD_none]
  rw [getBlocks_run] at replied
  generalize height.getD ((seen 0).getTopConfirmed % 2 ^ 32) = first at replied from_given from_top
  dsimp only at replied
  split_ifs at replied with above
  obtain rfl := Except.ok.inj replied
  have later : ∀ index, ∃ place, seen place = seen (index + 1) := fun index => ⟨index + 1, rfl⟩
  have read := Reads.run_of_whenever (@readBlocks_descends _ _ _ _ store blocks confirmedChainState
    (fun indexes => ∃ place, seen place = indexes) blockPage first) later
  exact ⟨read.1, first, from_given, from_top, Nat.not_lt.mp above, read.2⟩

/-! ## A chain in pages -/

/-- The store has all that the json of a block needs. -/
structure Stored (store : HeaderStore Link Digest) (blocks : BlockStore Link Digest)
    (link : Link) : Prop where
  header : (blocks.getHeader link).isSome
  associated : blocks.isAssociated link = true
  height : (store.getHeight link).isSome
  sizes : (blocks.getBlockSizes link).isSome

/-- What a client keeps of a block. -/
def BlockObject.key (block : BlockObject Digest) : Digest × Nat := (block.id, block.height)

/-- The hashes and heights of blocks from genesis, the last first. -/
def keysOf (store : HeaderStore Link Digest) (links : List Link) : List (Digest × Nat) :=
  (links.map store.getHeaderKey).zipIdx.reverse

/-- What a client asks for after the last block that it was sent, and nothing after genesis. -/
def askBlocks (reply : Nat → Option Nat → Except BlocksFault (List (BlockObject Digest)))
    (request : Nat) : Option (Digest × Nat) → Option (List (BlockObject Digest))
  | none => (reply request none).toOption
  | some (_, 0) => some []
  | some (_, height + 1) => (reply request (some height)).toOption

theorem toBlock_stored {link : Link} (stored : Stored store blocks link) :
    (toBlock blocks confirmedChainState (some link) : Reads (Indexes store) _).Whenever sees
      fun out => ∃ block, out = some block ∧ block.Of store link := by
  obtain ⟨header, header_found⟩ := Option.isSome_iff_exists.mp stored.header
  obtain ⟨height, height_found⟩ := Option.isSome_iff_exists.mp stored.height
  obtain ⟨⟨nominal, maximal⟩, sizes_found⟩ := Option.isSome_iff_exists.mp stored.sizes
  simp only [toBlock, header_found, stored.associated, height_found, sizes_found]
  rw [Reads.whenever_bind]
  apply Reads.whenever_of_forall
  intro median
  exact ⟨_, rfl, rfl, store.getHeight_eq height_found⟩

omit [DecidableEq Link] [DecidableEq Digest] in
theorem keysOf_concat (links : List Link) (link : Link) :
    keysOf store (links ++ [link]) =
      (store.getHeaderKey link, links.length) :: keysOf store links := by
  simp [keysOf, List.zipIdx_append]

variable {chain : Confirmed store}

/-- The blocks of a chain that only grows, from a height down. -/
theorem readBlocks_stored (stored : ∀ link ∈ chain.links, Stored store blocks link)
    (turns : Nat) {start : Nat} (inside : start < chain.links.length) :
    (readBlocks blocks confirmedChainState turns start).Whenever
      (fun indexes : Indexes store => chain.links <+: indexes.confirmed.links) fun page =>
        page.map BlockObject.key = (keysOf store (chain.links.take (start + 1))).take turns := by
  induction turns generalizing start with
  | zero => rfl
  | succ turns ih =>
      have concat : chain.links.take (start + 1) = chain.links.take start ++ [chain.links[start]] :=
        List.take_succ_eq_append_getElem inside
      have length : (chain.links.take start).length = start :=
        List.length_take_of_le (Nat.le_of_lt inside)
      rw [readBlocks, Reads.whenever_get_bind]
      intro indexes longer
      have here : indexes.toConfirmed start = some chain.links[start] := by
        obtain ⟨added, joined⟩ := longer
        rw [Indexes.toConfirmed, ← joined, List.getElem?_append_left inside,
          List.getElem?_eq_getElem inside]
      rw [here, Reads.whenever_bind]
      refine (toBlock_stored (stored _ (List.getElem_mem inside))).imp ?_
      rintro _ ⟨block, rfl, of⟩
      have key : block.key = (store.getHeaderKey chain.links[start], start) := by
        rw [BlockObject.key, of.id, of.height,
          chain.placed start _ (List.getElem?_eq_getElem inside)]
      rw [concat, keysOf_concat, length, List.take_succ_cons]
      dsimp only
      split_ifs with genesis
      · cases genesis
        rw [Reads.whenever_pure, List.map_singleton, key]
        simp [keysOf]
      · rw [Reads.whenever_bind]
        refine (ih (Nat.lt_of_le_of_lt (Nat.sub_le start 1) inside)).imp fun page below => ?_
        rw [Nat.sub_add_cancel (Nat.pos_of_ne_zero genesis)] at below
        rw [Reads.whenever_pure, List.map_cons, key, below]

omit [DecidableEq Link] [DecidableEq Digest] in
theorem keysOf_split {links : List Link} {passed rest : List (Digest × Nat)} {id : Digest}
    {height : Nat} (split : passed ++ (id, height) :: rest = keysOf store links) :
    height < links.length ∧ rest = keysOf store (links.take height) := by
  have forward : (links.map store.getHeaderKey).zipIdx =
      rest.reverse ++ (id, height) :: passed.reverse := by
    rw [← List.reverse_reverse (List.zipIdx _), ← keysOf, ← split]
    simp
  obtain ⟨front, back, joined, fronts, backs⟩ := List.zipIdx_eq_append_iff.mp forward
  cases back with
  | nil => cases backs
  | cons key back =>
      rw [List.zipIdx_cons, Nat.zero_add] at backs
      obtain rfl : height = front.length :=
        congrArg Prod.snd (List.cons.inj backs).1
      constructor
      · have length := congrArg List.length joined
        rw [List.length_map, List.length_append, List.length_cons] at length
        omega
      · rw [keysOf, List.map_take, joined, List.take_left, ← fronts, List.reverse_reverse]

/-- Each request of a client is answered from the chain of the first. -/
theorem askBlocks_serves {seen : Nat → Nat → Indexes store}
    (grows : ∀ request read,
      (seen 0 0).confirmed.links <+: (seen request read).confirmed.links)
    (small : (seen 0 0).confirmed.top < 2 ^ 32)
    (stored : ∀ link ∈ (seen 0 0).confirmed.links, Stored store blocks link) :
    Paging.Serves BlockObject.key
      (askBlocks fun request height =>
        (handleGetBlocks blocks confirmedChainState true height).run (seen request))
      blockPage (keysOf store (seen 0 0).confirmed.links) := by
  have page (request start : Nat) (inside : start < (seen 0 0).confirmed.links.length)
      (height : Option Nat)
      (here : height.getD ((seen request 0).getTopConfirmed % 2 ^ 32) = start) :
      ∃ page, ((handleGetBlocks blocks confirmedChainState true height).run
          (seen request)).toOption = some page ∧ page.map BlockObject.key =
            (keysOf store ((seen 0 0).confirmed.links.take (start + 1))).take blockPage := by
    have longer := (grows request 0).length_le
    rw [Confirmed.length_links, Confirmed.length_links] at longer
    rw [Confirmed.length_links] at inside
    have within : ¬start > (seen request 0).getTopConfirmed := by
      rw [Indexes.getTopConfirmed]
      omega
    rw [getBlocks_run, here]
    dsimp only
    rw [if_neg within]
    exact ⟨_, rfl, Reads.run_of_whenever (readBlocks_stored stored blockPage inside)
      fun read => grows request (read + 1)⟩
  constructor
  · have first := page 0 (seen 0 0).confirmed.top (Nat.lt_succ_self _) none
      (Nat.mod_eq_of_lt small)
    rw [← Confirmed.length_links, List.take_length] at first
    exact first
  · intro request passed last rest split
    obtain ⟨id, height⟩ := last
    obtain ⟨inside, rfl⟩ := keysOf_split split
    cases height with
    | zero => exact ⟨[], rfl, rfl⟩
    | succ height => exact page (request + 1) height (Nat.lt_of_succ_lt inside) (some height) rfl

/-- A client that asks for the top blocks, and then for those below the last that it was sent
    until it is sent genesis, is sent the chain of its first read, however many blocks are
    connected between any two of the reads. -/
theorem blocks_pages_complete (start : Indexes store) (schedule : Nat → List (Change Link))
    (uncut : ∀ index, ∀ change ∈ schedule index, Uncut change) (place : Nat → Nat → Nat)
    (first : ∀ request read, place 0 0 ≤ place request read) :
    let seen := fun request read =>
      Reads.interleaved Indexes.step start schedule (place request read)
    (seen 0 0).confirmed.top < 2 ^ 32 →
      (∀ link ∈ (seen 0 0).confirmed.links, Stored store blocks link) →
      ∃ pages, Paging.Divides BlockObject.key blockPage
          (keysOf store (seen 0 0).confirmed.links) pages ∧
        ∀ turns, pages.length < turns →
          Paging.collect BlockObject.key (askBlocks fun request height =>
            (handleGetBlocks blocks confirmedChainState true height).run (seen request))
              turns 0 none = some pages := by
  intro seen small stored
  have grows : ∀ request read,
      (seen 0 0).confirmed.links <+: (seen request read).confirmed.links := by
    intro request read
    exact Store.links_interleaved start uncut (first request read)
  exact Paging.collect_serves (by decide) (askBlocks_serves grows small stored)

end Pages

/-- A link is the height of a block and the branch that it is on. -/
private def branched : HeaderStore (Nat × Bool) (Nat × Bool) where
  getHeaderKey := id
  height := Prod.fst
  getHeight link := some link.1
  getHeader _ := none
  getWireHeader _ := none
  getContext _ := none
  getHeight_eq same := (Option.some.inj same).symm
  hash_eq same := by cases same
  wire_length same := by cases same
  height_of_key same := congrArg Prod.fst same

private def branchedBlocks : BlockStore (Nat × Bool) (Nat × Bool) where
  getHeader link := some ⟨1, link.1, 0, 0, link, (link.1 - 1, link.2)⟩
  isAssociated _ := true
  getBlockSizes _ := some (200, 300)
  getTxCount _ := 1
  difficulty _ := 1
  weightedSize nominal maximal := 3 * nominal + maximal
  nullHash := (0, true)

private theorem map_range_succ (count : Nat) :
    (0, false) :: (List.range count).map (fun height => (height + 1, false)) =
      (List.range (count + 1)).map fun height => (height, false) := by
  rw [List.range_succ_eq_map, List.map_cons, List.map_map]
  rfl

private theorem branched_placed (count index : Nat) (link : Nat × Bool)
    (here : ((0, false) :: (List.range count).map fun height => (height + 1, false))[index]? =
      some link) : link.1 = index := by
  rw [map_range_succ, List.getElem?_map, Option.map_eq_some_iff] at here
  obtain ⟨height, found, rfl⟩ := here
  obtain ⟨inside, same⟩ := List.getElem?_eq_some_iff.mp found
  rw [← same, List.getElem_range]

private def twelveBlocks : Indexes branched where
  archived := []
  candidateTop := 11
  confirmed := {
    genesis := (0, false)
    above := (List.range 11).map fun height => (height + 1, false)
    placed := branched_placed 11
    bounded := Nat.lt_two_pow_self.trans_le (Nat.pow_le_pow_right Nat.two_pos
      (Nat.le_add_left 12 52)) }

/-- The top is replaced between its read and that of its link. -/
theorem getBlocks_descends_replaced :
    let schedule : Nat → List (Change (Nat × Bool)) := fun index =>
      if index = 1 then [.disconnect, .connect (11, true)] else []
    let seen := Reads.interleaved Indexes.step twelveBlocks schedule
    ∃ page, (handleGetBlocks branchedBlocks (fun _ _ => none) true none).run seen = .ok page ∧
      page.length ≤ 10 ∧ Descends (fun indexes => ∃ index, seen index = indexes) 11 page := by
  intro schedule seen
  have replied : ∃ page, (handleGetBlocks branchedBlocks (fun _ _ => none) true none).run seen =
      .ok page := ⟨_, getBlocks_run none seen⟩
  obtain ⟨page, replied⟩ := replied
  obtain ⟨short, first, -, from_top, -, descends⟩ :=
    getBlocks_descends none twelveBlocks schedule page replied
  have top : first = 11 := from_top rfl
  exact ⟨page, replied, short, top ▸ descends⟩

/-- A block is connected after the first read. -/
theorem blocks_pages_complete_twelve :
    let schedule : Nat → List (Change (Nat × Bool)) := fun index =>
      if index = 1 then [.connect (12, false)] else []
    let seen := fun request read =>
      Reads.interleaved Indexes.step twelveBlocks schedule (100 * request + read)
    ∃ pages, Paging.Divides BlockObject.key blockPage
        ((List.range 12).map fun height => ((height, false), height)).reverse pages ∧
      ∀ turns, pages.length < turns →
        Paging.collect BlockObject.key (askBlocks fun request height =>
          (handleGetBlocks branchedBlocks (fun _ _ => none) true height).run (seen request))
            turns 0 none = some pages := by
  intro schedule seen
  have uncut : ∀ index, ∀ change ∈ schedule index, Uncut change := by
    intro index change member
    simp only [schedule] at member
    split_ifs at member
    · cases List.mem_singleton.mp member
      trivial
    · cases member
  exact @blocks_pages_complete _ _ _ _ branched branchedBlocks (fun _ _ => none) twelveBlocks
    schedule uncut (fun request read => 100 * request + read) (fun _ _ => Nat.zero_le _)
    (by decide) fun link _ => ⟨rfl, rfl, rfl, rfl⟩

end LibbitcoinServer.Esplora
