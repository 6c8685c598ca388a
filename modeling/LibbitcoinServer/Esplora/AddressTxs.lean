import LibbitcoinServer.Esplora.Archive
import LibbitcoinServer.Lib.Paging
import LibbitcoinServer.Lib.Traverse

/-! # Paged transactions of an address

The confirmed transactions of an address are sent by pages, newest first, each after the
last that the client has seen.  The index sorts oldest first, and blocks may add to its end
between the requests of a client.
-/

namespace LibbitcoinServer.Esplora

def addressPage : Nat := 25

def mempoolPage : Nat := 50

/-- The histories are those of a key, within a limit. -/
structure AddressArchive (Digest TxLink PointLink HeaderLink : Type)
    extends Archive Digest TxLink PointLink HeaderLink where
  addressEnabled : Bool
  getUnconfirmedHistory : Digest → Nat → Except Code (List (History Digest))
  getConfirmedHistory : Digest → Nat → Except Code (List (History Digest))

/-- The hash of the output script of an address is of the system library. -/
structure AddressSettings (Digest : Type) where
  maximumHistory : Nat
  outputScript : String → Option Digest

section Handlers

variable {Digest TxLink PointLink HeaderLink : Type} [DecidableEq Digest]
  (settings : AddressSettings Digest) (archive : AddressArchive Digest TxLink PointLink HeaderLink)

/-- The address index is keyed by the hash of the output script. -/
def toKey (hash : Option Digest) (address : Option String) : Option Digest :=
  match hash with
  | some hash => some hash
  | none => address.bind settings.outputScript

def doGetAddressTxs (key : Digest) (mempool chain : Bool) :
    Except Code (List (History Digest) × List (History Digest)) := do
  let limit := settings.maximumHistory
  let unconfirmed ← if mempool then archive.getUnconfirmedHistory key limit else .ok []
  let confirmed ← if chain then archive.getConfirmedHistory key limit else .ok []
  return (unconfirmed, confirmed)

/-- The first item of a page: an iterator is the list from it to the end. -/
def firstItem (newest : List (History Digest)) (lastSeen : Option Digest) :
    Option (List (History Digest)) :=
  match lastSeen with
  | none => some newest
  | some hash =>
      match newest.dropWhile fun item => item.hash ≠ hash with
      | [] => none
      | _ :: next => some next

def appendTxs (items : List (History Digest)) : Option (List (TxObject Digest)) :=
  items.mapM fun item => archive.toTxObject (archive.toTx item.hash)

def completeGetAddressTxs
    (result : Except Code (List (History Digest) × List (History Digest)))
    (lastSeen : Option Digest) : Response (List (TxObject Digest)) :=
  match result with
  | .error _ => .internalServerError
  | .ok (unconfirmed, confirmed) =>
      match firstItem confirmed.reverse lastSeen with
      | none => .notFound
      | some first =>
          let pooled := min mempoolPage unconfirmed.length
          let paged := min addressPage first.length
          match appendTxs archive (unconfirmed.reverse.take pooled) with
          | none => .internalServerError
          | some out =>
              match appendTxs archive (first.take paged) with
              | none => .internalServerError
              | some page => .json (out ++ page)

def getAddressTxs (json : Bool) (hash : Option Digest) (address : Option String)
    (lastSeen : Option Digest) (mempool chain : Bool) : Response (List (TxObject Digest)) :=
  if !json then .notAcceptable
  else
    match toKey settings hash address with
    | none => .badRequest
    | some key =>
        if !archive.addressEnabled then .notImplemented
        else
          completeGetAddressTxs archive (doGetAddressTxs settings archive key mempool chain)
            lastSeen

def handleGetAddressTxsChain (json : Bool) (hash : Option Digest) (address : Option String)
    (lastSeen : Option Digest) : Response (List (TxObject Digest)) :=
  getAddressTxs settings archive json hash address lastSeen false true

end Handlers

/-! ## Pages of a history -/

section Pages

variable {Digest TxLink PointLink HeaderLink : Type} [DecidableEq Digest]

/-- A key's history that only grows, of transactions that are distinct and stored, as it is
    read at each request. -/
structure Grows (settings : AddressSettings Digest)
    (archives : Nat → AddressArchive Digest TxLink PointLink HeaderLink) (key : Digest)
    (history : Nat → List (History Digest)) : Prop where
  enabled : ∀ request, (archives request).addressEnabled = true
  reads : ∀ request, (archives request).getConfirmedHistory key settings.maximumHistory =
    .ok (history request)
  grows : ∀ request, history request <+: history (request + 1)
  distinct : ∀ request, ((history request).map History.hash).Nodup
  resolves : ∀ request, ∀ item ∈ history request, ∃ link tx,
    (archives request).toTx item.hash = some link ∧
      (archives request).getTransaction link = some tx ∧
      (archives request).getTxKey link = item.hash

/-- The page that a request is answered with, if it is. -/
def chainPage (settings : AddressSettings Digest)
    (archives : Nat → AddressArchive Digest TxLink PointLink HeaderLink) (hash : Option Digest)
    (address : Option String) (request : Nat) (lastSeen : Option Digest) :
    Option (List (TxObject Digest)) :=
  match handleGetAddressTxsChain settings (archives request) true hash address lastSeen with
  | .json page => some page
  | _ => none

variable {settings : AddressSettings Digest}
  {archives : Nat → AddressArchive Digest TxLink PointLink HeaderLink} {key : Digest}
  {history : Nat → List (History Digest)}

omit [DecidableEq Digest] in
theorem Grows.begins (grows : Grows settings archives key history) (request : Nat) :
    history 0 <+: history request := by
  induction request with
  | zero => exact List.prefix_rfl
  | succ request ih => exact ih.trans (grows.grows request)

/-- The items after the one of a hash, where no other item has the hash. -/
theorem firstItem_some {newest : List (History Digest)} {passed rest : List Digest}
    {last : Digest} (distinct : (newest.map History.hash).Nodup)
    (split : newest.map History.hash = passed ++ last :: rest) :
    ∃ items, firstItem newest (some last) = some items ∧ items.map History.hash = rest ∧
      items ⊆ newest := by
  have unseen : ∀ hash ∈ passed, hash ≠ last := by
    rw [split, List.nodup_append'] at distinct
    intro hash member same
    exact distinct.2.2 member (same ▸ List.mem_cons_self)
  have found : (newest.dropWhile fun item => item.hash ≠ last).map History.hash = last :: rest := by
    have keys : (newest.map History.hash).dropWhile (· ≠ last) = last :: rest := by
      rw [split, List.dropWhile_append_of_pos (by simpa using unseen)]
      simp
    rw [List.dropWhile_map] at keys
    exact keys
  cases items_found : newest.dropWhile fun item => item.hash ≠ last with
  | nil =>
      rw [items_found] at found
      cases found
  | cons item items =>
      rw [items_found, List.map_cons] at found
      have suffix : item :: items <:+ newest := items_found ▸ List.dropWhile_suffix _
      refine ⟨items, ?_, (List.cons.inj found).2, ?_⟩
      · rw [firstItem, items_found]
      · exact fun other member => suffix.subset (List.mem_cons_of_mem _ member)

omit [DecidableEq Digest] in
/-- Stored transactions are sent in order, each with its own hash. -/
theorem appendTxs_resolved {archive : AddressArchive Digest TxLink PointLink HeaderLink}
    {items : List (History Digest)} (resolves : ∀ item ∈ items, ∃ link tx,
      archive.toTx item.hash = some link ∧ archive.getTransaction link = some tx ∧
        archive.getTxKey link = item.hash) :
    ∃ page, appendTxs archive items = some page ∧
      page.map TxObject.txid = items.map History.hash := by
  have every : ∀ item ∈ items, ∃ object, archive.toTxObject (archive.toTx item.hash) =
      some object ∧ item.hash = object.txid := by
    intro item member
    obtain ⟨link, tx, linked, stored, keyed⟩ := resolves item member
    exact ⟨_, by rw [Archive.toTxObject, linked, Option.bind_some, stored, Option.map_some],
      keyed.symm⟩
  obtain ⟨page, made, same⟩ := Traverse.exists_mapM every
  have hashes : List.Forall₂ Eq (items.map History.hash) (page.map TxObject.txid) := by
    rw [List.forall₂_map_left_iff, List.forall₂_map_right_iff]
    exact same
  rw [List.forall₂_eq_eq_eq] at hashes
  exact ⟨page, made, hashes.symm⟩

/-- What a request is answered with, by the items that are found. -/
theorem chainPage_found (grows : Grows settings archives key history) {hash : Option Digest}
    {address : Option String} (keyed : toKey settings hash address = some key) (request : Nat)
    {lastSeen : Option Digest} {items : List (History Digest)}
    (found : firstItem (history request).reverse lastSeen = some items)
    (inside : items ⊆ (history request).reverse) :
    ∃ page, chainPage settings archives hash address request lastSeen = some page ∧
      page.map TxObject.txid = (items.map History.hash).take addressPage := by
  have resolves : ∀ item ∈ items.take (min addressPage items.length), ∃ link tx,
      (archives request).toTx item.hash = some link ∧
        (archives request).getTransaction link = some tx ∧
        (archives request).getTxKey link = item.hash := by
    intro item member
    exact grows.resolves request item (List.mem_reverse.mp (inside (List.mem_of_mem_take member)))
  obtain ⟨page, made, hashes⟩ := appendTxs_resolved resolves
  have read : doGetAddressTxs settings (archives request) key false true =
      .ok ([], history request) := by
    simp only [doGetAddressTxs, Bool.false_eq_true, if_false, if_true, grows.reads request]
    rfl
  have unpooled : appendTxs (archives request) (List.take (min mempoolPage 0) []) = some [] := rfl
  refine ⟨page, ?_, ?_⟩
  · simp only [chainPage, handleGetAddressTxsChain, getAddressTxs, keyed, grows.enabled request,
      read, completeGetAddressTxs, found, made, unpooled, Bool.not_true, Bool.false_eq_true,
      if_false, List.reverse_nil, List.length_nil, List.nil_append]
  · rw [hashes, List.map_take, ← List.length_map History.hash, ← List.take_eq_take_min]

/-- Each request of a reader is answered from the history of the first. -/
theorem chainPage_serves (grows : Grows settings archives key history) {hash : Option Digest}
    {address : Option String} (keyed : toKey settings hash address = some key) :
    Paging.Serves TxObject.txid (chainPage settings archives hash address) addressPage
      ((history 0).map History.hash).reverse where
  first := by
    rw [← List.map_reverse]
    exact chainPage_found grows keyed 0 rfl (List.Subset.refl _)
  next := by
    intro request passed last rest split
    obtain ⟨added, later⟩ := grows.begins (request + 1)
    have distinct : ((history (request + 1)).reverse.map History.hash).Nodup := by
      rw [List.map_reverse, List.nodup_reverse]
      exact grows.distinct (request + 1)
    -- What was added since the first request is newer than all of it.
    have placed : (history (request + 1)).reverse.map History.hash =
        (added.reverse.map History.hash ++ passed) ++ last :: rest := by
      rw [List.append_assoc, split, ← List.map_reverse, ← later, List.reverse_append,
        List.map_append]
    obtain ⟨items, found, hashes, inside⟩ := firstItem_some distinct placed
    rw [← hashes]
    exact chainPage_found grows keyed (request + 1) found inside

/-- A client that asks for the confirmed transactions of an address, and for those after the
    last that it was sent until it is sent none, is sent the history of its first request,
    newest first, each transaction once.  All pages but the last are full, and there are as
    many as the history fills. -/
theorem chain_pages_complete (grows : Grows settings archives key history)
    {hash : Option Digest} {address : Option String}
    (keyed : toKey settings hash address = some key) :
    ∃ pages,
      Paging.Divides TxObject.txid addressPage ((history 0).map History.hash).reverse pages ∧
        (pages.flatten.map TxObject.txid).Nodup ∧
        ∀ turns, pages.length < turns →
          Paging.collect TxObject.txid (chainPage settings archives hash address) turns 0 none =
            some pages := by
  have positive : 0 < addressPage := by decide
  obtain ⟨pages, divides, collected⟩ :=
    Paging.collect_serves positive (chainPage_serves grows keyed)
  refine ⟨pages, divides, ?_, collected⟩
  rw [divides.joined, List.nodup_reverse]
  exact grows.distinct 0

end Pages

/-- The entries of transactions that are numbered in the order of their heights. -/
private def entries (count : Nat) : List (History Nat) :=
  (List.range count).map fun number => ⟨number, number, 0, 0, true⟩

/-- Two entries at the first request, and one more at each. -/
private def growing (request : Nat) : AddressArchive Nat Nat Nat Nat where
  headers := Store.HeaderStore.unfound
  toTx := some
  getTransaction link := some ⟨link, [], []⟩
  getTxKey := id
  findConfirmedBlock _ := none
  findConfirmedSpender _ := none
  findConfirmableSpender _ := none
  toInputTx _ := none
  toPoints _ := []
  getPoint _ := toLex (0, 0)
  addressEnabled := true
  getUnconfirmedHistory _ _ := .ok []
  getConfirmedHistory _ _ := .ok (entries (request + 2))

private theorem map_entries (count : Nat) :
    (entries count).map History.hash = List.range count := by
  simp [entries, Function.comp_def]

private theorem growing_grows (settings : AddressSettings Nat) (key : Nat) :
    Grows settings growing key fun request => entries (request + 2) where
  enabled _ := rfl
  reads _ := rfl
  grows request := by
    have longer : entries (request + 1 + 2) =
        entries (request + 2) ++ [⟨request + 2, request + 2, 0, 0, true⟩] := by
      rw [entries, Nat.add_right_comm, List.range_succ, List.map_append]
      rfl
    rw [longer]
    exact List.prefix_append _ _
  distinct request := by
    rw [map_entries]
    exact List.nodup_range
  resolves _ item _ := ⟨item.hash, _, rfl, rfl, rfl⟩

theorem chain_pages_complete_two :
    ∃ pages, Paging.Divides TxObject.txid addressPage [1, 0] pages ∧
      (pages.flatten.map TxObject.txid).Nodup ∧
      ∀ turns, pages.length < turns → Paging.collect TxObject.txid
        (chainPage ⟨100, fun _ => none⟩ growing (some 7) none) turns 0 none = some pages :=
  @chain_pages_complete _ _ _ _ _ ⟨100, fun _ => none⟩ _ _ _ (growing_grows _ 7) (some 7) none rfl

end LibbitcoinServer.Esplora
