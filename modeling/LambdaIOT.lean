import LambdaIOT.Lib.Bytes
import LambdaIOT.Lib.CLib
import LambdaIOT.Lib.Chunked
import LambdaIOT.Lib.Scanner
import LambdaIOT.Lwip.Pbuf
import LambdaIOT.Httpd.Invariants
import LambdaIOT.Httpd.HeaderScan
import LambdaIOT.Httpd.Logged
import LambdaIOT.Httpd.Reading
import LambdaIOT.Httpd.Sending
import LambdaIOT.Properties.Receive
import LambdaIOT.Properties.Occupancy
import LambdaIOT.Properties.Sessions
import LambdaIOT.Properties.Association
import LambdaIOT.Properties.Headers
import LambdaIOT.Properties.Body
import LambdaIOT.Properties.Progress
import LambdaIOT.Properties.Delivery
import LambdaIOT.Properties.Encoding
import LambdaIOT.Properties.Segmentation
import LambdaIOT.Properties.Oversized
import LambdaIOT.Properties.Rings
import LambdaIOT.Properties.Tags
import LambdaIOT.Properties.Ranges
import LambdaIOT.Properties.Stranded
import LambdaIOT.Properties.Boundaries
import LambdaIOT.Properties.Replies
import LambdaIOT.Properties.Alignment
import LambdaIOT.Properties.Redirects
import LambdaIOT.Properties.Denials
import LambdaIOT.Properties.Callbacks
import LambdaIOT.Properties.Search
import LambdaIOT.Properties.Dates
import LambdaIOT.Properties.Paths
import LambdaIOT.Properties.Forms
import LambdaIOT.Properties.FormPieces
import LambdaIOT.Properties.Decoding
import LambdaIOT.Properties.Description
import LambdaIOT.Properties.Loopback
import LambdaIOT.Properties.Timeout
import LambdaIOT.Properties.Termination
import LambdaIOT.Properties.Listing
import LambdaIOT.Properties.Configuration
import LambdaIOT.Properties.Authorization
import LambdaIOT.Properties.RangeSafety
import LambdaIOT.Properties.Downloads
import LambdaIOT.Properties.Deliveries
import LambdaIOT.Properties.Stream
import LambdaIOT.Properties.Contents
import LambdaIOT.Properties.Accounts
import LambdaIOT.Properties.Isolation
