import LibbitcoinServer.Esplora.Archive
import LibbitcoinServer.Lib.Traverse

/-! # Spends of outputs

`outspends` gives the spend of each output of a transaction, and `outspend` that of one
index.  Both find the spend of an output by its outpoint alone, so the second answers for
any index, whether or not the transaction has the output.
-/

namespace LibbitcoinServer.Esplora

inductive Outspend (Digest : Type) where
  | unspent
  | spent (txid : Digest) (vin : Nat) (status : Status Digest)
  deriving DecidableEq

variable {Digest TxLink PointLink HeaderLink : Type} [DecidableEq PointLink]
  (archive : Archive Digest TxLink PointLink HeaderLink)

namespace Archive

def spender (prevout : Point Digest) : Option PointLink :=
  match archive.findConfirmedSpender prevout with
  | some spender => some spender
  | none => archive.findConfirmableSpender prevout

/-- The spend of an outpoint, and nothing where the spender is not within its transaction. -/
def toOutspend (hash : Digest) (index : Nat) : Option (Outspend Digest) :=
  match archive.spender (toLex (hash, index)) with
  | none => some .unspent
  | some spender =>
      match archive.toInputTx spender with
      | none => none
      | some tx =>
          -- The input index is the position of the point within the spending tx.
          match (archive.toPoints tx).idxOf? spender with
          | none => none
          | some position => some (.spent (archive.getTxKey tx) position (archive.toStatus tx))

def handleGetTxOutspend (json : Bool) (hash : Digest) (index : UInt32) :
    Response (Outspend Digest) :=
  if !json then .notAcceptable
  else
    match archive.toTx hash with
    | none => .notFound
    | some _ =>
        match archive.toOutspend hash index.toNat with
        | none => .notFound
        | some out => .json out

def handleGetTxOutspends (json : Bool) (hash : Digest) : Response (List (Outspend Digest)) :=
  if !json then .notAcceptable
  else
    match (archive.toTx hash).bind archive.getTransaction with
    | none => .notFound
    | some tx =>
        match (List.range tx.outputs.length).mapM (archive.toOutspend hash) with
        | none => .internalServerError
        | some out => .json out

/-! ## Spends of an intact store -/

/-- A spender that is found spends the outpoint, it is a point of a stored transaction, and
    the points of a transaction are those of its inputs. -/
structure Intact : Prop where
  spends : ∀ {prevout spender}, archive.spender prevout = some spender →
    archive.getPoint spender = prevout
  resolves : ∀ {prevout spender}, archive.spender prevout = some spender →
    ∃ link tx, archive.toInputTx spender = some link ∧ spender ∈ archive.toPoints link ∧
      archive.getTransaction link = some tx
  points : ∀ {link tx}, archive.getTransaction link = some tx →
    (archive.toPoints link).map archive.getPoint = tx.inputs.map Input.prevout

end Archive

/-- A spend of the outpoint by an input of its transaction at the position. -/
def Outspend.Of (archive : Archive Digest TxLink PointLink HeaderLink) (prevout : Point Digest) :
    Outspend Digest → Prop
  | .unspent => archive.spender prevout = none
  | .spent txid vin status => ∃ link tx input, archive.getTxKey link = txid ∧
      archive.getTransaction link = some tx ∧ tx.inputs[vin]? = some input ∧
      input.prevout = prevout ∧ status = archive.toStatus link

namespace Archive

variable {archive}

/-- Every outpoint has its spend. -/
theorem Intact.toOutspend (intact : archive.Intact) (hash : Digest) (index : Nat) :
    ∃ out, archive.toOutspend hash index = some out ∧
      out.Of archive (toLex (hash, index)) := by
  unfold Archive.toOutspend
  cases found : archive.spender (toLex (hash, index)) with
  | none => exact ⟨.unspent, rfl, found⟩
  | some spender =>
      obtain ⟨link, tx, input_of, member, stored⟩ := intact.resolves found
      obtain ⟨position, here⟩ := Option.isSome_iff_exists.mp (List.isSome_idxOf?.mpr member)
      obtain ⟨bound, same, -⟩ := List.idxOf?_eq_some_iff.mp here
      have placed : (archive.toPoints link)[position]? = some spender :=
        List.getElem?_eq_some_iff.mpr ⟨bound, same⟩
      have mapped : (tx.inputs.map Input.prevout)[position]? = some (archive.getPoint spender) := by
        rw [← intact.points stored, List.getElem?_map, placed]
        rfl
      rw [List.getElem?_map, Option.map_eq_some_iff] at mapped
      obtain ⟨input, input_here, prevout⟩ := mapped
      dsimp only
      rw [input_of]
      dsimp only
      rw [here]
      exact ⟨_, rfl, link, tx, input, rfl, stored, input_here,
        prevout.trans (intact.spends found), rfl⟩

variable {hash : Digest} {link : TxLink} {tx : Transaction Digest}

theorem handleGetTxOutspend_stored (linked : archive.toTx hash = some link) (index : UInt32)
    {out : Outspend Digest} (made : archive.toOutspend hash index.toNat = some out) :
    archive.handleGetTxOutspend true hash index = .json out := by
  simp [handleGetTxOutspend, linked, made]

/-- The spends of a stored transaction, one for each output. -/
theorem handleGetTxOutspends_stored (intact : archive.Intact)
    (linked : archive.toTx hash = some link) (stored : archive.getTransaction link = some tx) :
    ∃ spends, archive.handleGetTxOutspends true hash = .json spends ∧
      spends.length = tx.outputs.length ∧
      ∀ index < tx.outputs.length, spends[index]? = archive.toOutspend hash index := by
  have every : ∀ index ∈ List.range tx.outputs.length, ∃ out,
      archive.toOutspend hash index = some out ∧ archive.toOutspend hash index = some out := by
    intro index _
    obtain ⟨out, made, _⟩ := intact.toOutspend hash index
    exact ⟨out, made, made⟩
  obtain ⟨spends, made, found⟩ := Traverse.exists_mapM every
  refine ⟨spends, ?_, ?_, ?_⟩
  · simp [handleGetTxOutspends, linked, stored, made]
  · rw [← found.length_eq, List.length_range]
  · intro index inside
    exact Traverse.getElem?_of_forall₂ found (List.getElem?_range inside)

/-- The two requests agree at the index over the outputs of the transaction, and what they
    say of an output is its spend. -/
structure Agrees (archive : Archive Digest TxLink PointLink HeaderLink) (hash : Digest)
    (outputs : Nat) (index : UInt32) : Prop where
  inside : index.toNat < outputs → ∃ spends spend,
    archive.handleGetTxOutspends true hash = .json spends ∧
      spends[index.toNat]? = some spend ∧ archive.handleGetTxOutspend true hash index = .json spend
  outside : outputs ≤ index.toNat → archive.handleGetTxOutspend true hash index = .notFound
  every : ∃ spends, archive.handleGetTxOutspends true hash = .json spends ∧
    spends.length = outputs ∧
    ∀ (place : Nat) (spend : Outspend Digest), spends[place]? = some spend →
      spend.Of archive (toLex (hash, place))

/-- A stored transaction's spend of one index is that of the list for an index of an output,
    and no index of another is refused. -/
theorem outspend_agrees_iff (intact : archive.Intact) (linked : archive.toTx hash = some link)
    (stored : archive.getTransaction link = some tx) (index : UInt32) :
    Agrees archive hash tx.outputs.length index ↔ index.toNat < tx.outputs.length := by
  obtain ⟨out, made, _⟩ := intact.toOutspend hash index.toNat
  have answered := handleGetTxOutspend_stored linked index made
  obtain ⟨spends, all, length, each⟩ := handleGetTxOutspends_stored intact linked stored
  constructor
  · intro agrees
    by_contra beyond
    rw [agrees.outside (not_lt.mp beyond)] at answered
    cases answered
  · intro inside
    constructor
    · intro _
      exact ⟨spends, out, all, (each _ inside).trans made, answered⟩
    · intro beyond
      exact absurd inside (not_lt.mpr beyond)
    · refine ⟨spends, all, length, ?_⟩
      intro place spend here
      have bound := (List.getElem?_eq_some_iff.mp here).1
      rw [length] at bound
      obtain ⟨spend', found, spends_it⟩ := intact.toOutspend hash place
      obtain rfl : spend = spend' := by
        rw [each place bound, found] at here
        exact (Option.some.inj here).symm
      exact spends_it

end Archive

/-- The one output of transaction 7 is spent by the only input of transaction 8. -/
private def spentOnce : Archive Nat Nat Nat Nat where
  headers := Store.HeaderStore.unfound
  toTx := some
  getTransaction link :=
    if link = 7 then some ⟨7, [], [0]⟩
    else if link = 8 then some ⟨8, [⟨toLex (7, 0), 0⟩], []⟩
    else none
  getTxKey := id
  findConfirmedBlock _ := none
  findConfirmedSpender _ := none
  findConfirmableSpender prevout := if prevout = toLex (7, 0) then some 0 else none
  toInputTx _ := some 8
  toPoints link := if link = 8 then [0] else []
  getPoint _ := toLex (7, 0)

private theorem spentOnce_spender {prevout : Point Nat} {spender : Nat}
    (found : spentOnce.spender prevout = some spender) : prevout = toLex (7, 0) ∧ spender = 0 := by
  by_cases same : prevout = toLex (7, 0)
  · simp [Archive.spender, spentOnce, same] at found
    exact ⟨same, found.symm⟩
  · simp [Archive.spender, spentOnce, same] at found

private theorem spentOnce_intact : spentOnce.Intact where
  spends found := (spentOnce_spender found).1.symm
  resolves found := ⟨8, ⟨8, [⟨toLex (7, 0), 0⟩], []⟩, rfl,
    by simp [spentOnce, (spentOnce_spender found).2], rfl⟩
  points := by
    intro link tx stored
    by_cases first : link = 7
    · simp [spentOnce, first] at stored ⊢
      simp [← stored]
    · by_cases second : link = 8
      · simp [spentOnce, second] at stored ⊢
        simp [← stored]
      · simp [spentOnce, first, second] at stored

theorem outspend_agrees_spent : spentOnce.Agrees 7 1 0 :=
  (@Archive.outspend_agrees_iff _ _ _ _ _ spentOnce 7 7 ⟨7, [], [0]⟩ spentOnce_intact rfl rfl
    0).mpr (by decide)

/-- The transaction has no output at index one, and its spend is answered as unspent. -/
theorem outspend_beyond :
    ¬∀ (archive : Archive Nat Nat Nat Nat) (hash link : Nat) (tx : Transaction Nat)
      (index : UInt32), archive.Intact → archive.toTx hash = some link →
        archive.getTransaction link = some tx →
          archive.Agrees hash tx.outputs.length index := by
  intro all
  have agrees := all spentOnce 7 7 _ 1 spentOnce_intact rfl rfl
  have refused := agrees.outside (Nat.le_refl 1)
  cases refused

end LibbitcoinServer.Esplora
