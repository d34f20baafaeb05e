import ObcGsInterface.Verification.Command.Framing
import ObcGsInterface.Verification.Stuffing.RoundTrip
import ObcGsInterface.Verification.Link.Acknowledge
import ObcGsInterface.Verification.Link.Peer
import ObcGsInterface.Verification.Link.Sequence
import ObcGsInterface.Verification.Link.FlagSharing
import ObcGsInterface.Verification.Pipeline.Payload
import ObcGsInterface.Verification.Pipeline.Damage
import ObcGsInterface.Verification.Telemetry.Stream
import ObcGsInterface.Verification.Command.Response
import ObcGsInterface.Verification.Pipeline.Restuff
import ObcGsInterface.Library.BinaryPolynomial
import ObcGsInterface.Verification.Link.Detection
import ObcGsInterface.Verification.Link.Bursts
import ObcGsInterface.Verification.Link.Segments
import ObcGsInterface.Verification.Pipeline.ControlFrames
import ObcGsInterface.Verification.Crc32
import ObcGsInterface.Verification.Link.AddressEncoding
import ObcGsInterface.Verification.Stuffing.Transparency
import ObcGsInterface.Verification.Stuffing.Reuse
import ObcGsInterface.Verification.Stuffing.Overrun
import ObcGsInterface.Verification.Link.Rejected
import ObcGsInterface.Verification.Pipeline.Handle
import ObcGsInterface.Verification.Command.Factories
import ObcGsInterface.Verification.Readers
import ObcGsInterface.Verification.Stuffing.Counters
import ObcGsInterface.Verification.Stuffing.Inverse
import ObcGsInterface.Verification.Fec.Primitive
import ObcGsInterface.Verification.Fec.Correctness
import ObcGsInterface.Verification.Pipeline.Linked
import ObcGsInterface.Verification.Pipeline.EndToEnd
import ObcGsInterface.Verification.Fec.Limits
import ObcGsInterface.Verification.Aes.Counter
import ObcGsInterface.Verification.Ground.Sessions
import ObcGsInterface.Verification.Pipeline.Uplink
