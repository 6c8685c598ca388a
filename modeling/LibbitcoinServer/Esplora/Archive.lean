import LibbitcoinServer.Store.Chain
import LibbitcoinServer.Store.Tip

/-! # Transactions of the esplora interface

The store is known by its queries at one moment: transactions and their points by link, the
spenders of an output, and the confirmed block of a transaction.
-/

namespace LibbitcoinServer.Esplora

open Store (HeaderStore)

inductive Response (Body : Type) where
  | badRequest
  | notFound
  | notAcceptable
  | internalServerError
  | notImplemented
  | json (body : Body)
  deriving DecidableEq

/-- A terminal link is `none`.  A point is that of the link's input. -/
structure Archive (Digest TxLink PointLink HeaderLink : Type) where
  headers : HeaderStore HeaderLink Digest
  toTx : Digest → Option TxLink
  getTransaction : TxLink → Option (Transaction Digest)
  getTxKey : TxLink → Digest
  findConfirmedBlock : TxLink → Option HeaderLink
  findConfirmedSpender : Point Digest → Option PointLink
  findConfirmableSpender : Point Digest → Option PointLink
  toInputTx : PointLink → Option TxLink
  toPoints : TxLink → List PointLink
  getPoint : PointLink → Point Digest

inductive Status (Digest : Type) where
  | unconfirmed
  | confirmed (blockHeight : Nat) (blockHash : Digest) (blockTime : Nat)
  deriving DecidableEq

/-- A transaction as it is sent, with the key of its link. -/
structure TxObject (Digest : Type) where
  txid : Digest
  transaction : Transaction Digest
  status : Status Digest

variable {Digest TxLink PointLink HeaderLink : Type}

namespace Archive

variable (archive : Archive Digest TxLink PointLink HeaderLink)

def toStatus (link : TxLink) : Status Digest :=
  match archive.findConfirmedBlock link with
  | none => .unconfirmed
  | some block =>
      match archive.headers.getHeader block, archive.headers.getHeight block with
      | some header, some height =>
          .confirmed height (archive.headers.getHeaderKey block) header.timestamp
      | _, _ => .unconfirmed

/-- `to_tx`, of which a terminal link has no transaction. -/
def toTxObject (link : Option TxLink) : Option (TxObject Digest) :=
  link.bind fun link => (archive.getTransaction link).map fun transaction =>
    { txid := archive.getTxKey link, transaction, status := archive.toStatus link }

end Archive

end LibbitcoinServer.Esplora
