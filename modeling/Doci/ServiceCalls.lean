import Doci.Documents
import Doci.RelyGuarantee

/-! Calls of the two services, each on its own connection, that run side by side with
clients' uploads and the passing of time. -/

namespace Doci

open Coroutine ReadCommitted

inductive ServiceCall where
  | requestUpload (name : Option String)
  | finalize (id : DocumentId)
  | getDocument (id : DocumentId)
  | ensurePart (id : DocumentId) (locator : String) (kind : PartKind) (data : Bytes)
    (mime : Option Mime) (page : Option Nat)
  | ensureSourcePart (id : DocumentId) (kind : PartKind)
  | setPartThumb (part : PartId) (thumb : MediaId)
  | setPageCount (id : DocumentId) (count : Nat)
  | ensureThumb (source : MediaId) (data : Bytes) (mime : Option Mime)
  | delete (ids : List DocumentId)
  | softDeleteInvalid
  | purgeExpired

def ServiceCall.Result : ServiceCall → Type
  | requestUpload _ => DocumentId
  | finalize _ => DocumentRecord
  | getDocument _ => DocumentRecord
  | ensurePart _ _ _ _ _ _ => DocumentPartRecord
  | ensureSourcePart _ _ => DocumentPartRecord
  | setPartThumb _ _ => Unit
  | setPageCount _ _ => Unit
  | ensureThumb _ _ _ => MediaRecord
  | delete _ => Nat
  | softDeleteInvalid => Nat
  | purgeExpired => Nat

/-- The call on a connection; the document of an upload gets the connection's number. -/
def ServiceCall.run (cfg : MediaConfig) (session : Session) :
    (call : ServiceCall) → DocProg call.Result
  | requestUpload name => Doci.requestUpload session session name
  | finalize id => Doci.finalize cfg session id
  | getDocument id => Doci.getDocument id
  | ensurePart id locator kind data mime page =>
    Doci.ensurePart session id locator kind data mime page
  | ensureSourcePart id kind => Doci.ensureSourcePart id kind
  | setPartThumb part thumb => Doci.setPartThumb part thumb
  | setPageCount id count => Doci.setPageCount id count
  | ensureThumb source data mime => Doci.ensureThumb source data mime
  | delete ids => Doci.delete cfg session ids
  | softDeleteInvalid => Doci.softDeleteInvalid cfg session
  | purgeExpired => Doci.purgeExpired

/-- What happens to the store from outside: a call starts, a client puts an object
through a presigned URL, time passes. -/
inductive StoreEvent where
  | call (call : ServiceCall)
  | put (document : DocumentId) (data : Bytes)
  | tick (duration : Time)

structure CallTag where
  session : Session
  call : ServiceCall

def startCall (cfg : MediaConfig) (session : Session) (call : ServiceCall) :
    Thread DocReply Exc CallTag where
  tag := { session, call }
  prog := do
    let _ ← call.run cfg session
    return ()

def storeEvent (cfg : MediaConfig) (s : Store) :
    StoreEvent → Option (Store × List (Thread DocReply Exc CallTag))
  | .call call => some ({ s with fresh := s.fresh + 1 }, [startCall cfg s.fresh call])
  | .put document data =>
    some ({ s with objects := fun k => if k = .original document then some data else s.objects k }, [])
  | .tick duration => some ({ s with now := s.now + duration }, [])

/-- The server rolls back the transaction of a connection that is gone. -/
def serviceCalls (cfg : MediaConfig) : System DocReply Exc Store CallTag StoreEvent where
  meaning := Store.meaning
  admits := Store.admits
  env := fun e s => storeEvent cfg s e
  exit := fun _ _ => []
  death := fun tag s => s.rollback tag.session

end Doci
