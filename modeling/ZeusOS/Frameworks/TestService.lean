import ZeusOS.Frameworks.Proxies

/-!
# The Test Service

`TestService.cpp`, the server side: a service with one method, which greets
whoever the caller names. Of what it prints the model keeps the names, a line
for each.

## Main definitions

* `BnTestService`, `hello`, `onTransact`: The service.
-/

namespace ZeusOS

namespace Frameworks

open Binder ServiceManager

/-- The names that were printed behind `hello`. A null pointer has none. -/
structure BnTestService where
  printed : List (Option (List UInt8))
  deriving DecidableEq, Repr

namespace BnTestService

def hello (str : Option (List UInt8)) (service : BnTestService) : Option (Int32 × BnTestService) :=
  match str with
  | none => some (0, { printed := service.printed ++ List.replicate 5 none })
  | some str => (strlen str).map fun len =>
    (0, { printed := service.printed ++ List.replicate 5 (some (str.take len)) })

def onTransact : Handler BnTestService := fun txn msg reply service =>
  let refuse (reply : Parcel) : Handled BnTestService :=
    { status := -1, reply, writes := [], state := service }
  msg.getUint32.bind fun (strictPolicy, msg) =>
    if strictPolicy ≠ 0 then (reply.putUint32 0xffffffff).map refuse
    else if txn.code = helloSvrCmdSayHelloTo then
      msg.getString8.bind fun ((str, _), msg) =>
        (hello (str.map msg.buf.drop) service).bind fun (iRet, service) =>
          (reply.putUint32 iRet.toUInt32).map fun reply =>
            { status := 0, reply, writes := [], state := service }
    else some (refuse reply)

end BnTestService

end Frameworks

end ZeusOS
